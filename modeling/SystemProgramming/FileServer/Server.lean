import SystemProgramming.FileServer.Socket
import Mathlib.Logic.Function.Basic

/-! The file server: its files, its tables, its connections, and what it does at an event. -/

namespace SystemProgramming.FileServer

open Foundations

/-- A file name, as the bytes of a C string. -/
abbrev Name := List UInt8

/-- A path, as the bytes of a C string. -/
abbrev Path := List UInt8

/-- The bytes of a text in ASCII. -/
def ascii (text : List Char) : List UInt8 := text.map fun letter => UInt8.ofNat letter.toNat

/-- The byte that ends a header and separates names in a listing. -/
abbrev newline : UInt8 := 10

/-- The byte between the components of a path. -/
abbrev slash : UInt8 := 47

/-- `HEADER_SIZE`. -/
abbrev headerSize : Nat := 128

/-- `HEAD_READ_LIMIT`. -/
abbrev headReadLimit : Nat := 263

/--
What the server uses from outside: a dictionary from names to sizes, which gives back the size that
was set for a name, and the texts of its error replies.
-/
structure Library where
  Dictionary : Type
  create : Dictionary
  get : Dictionary → Name → Option Nat
  set : Dictionary → Name → Nat → Dictionary
  remove : Dictionary → Name → Dictionary
  get_create : ∀ name, get create name = none
  get_set : ∀ dictionary name size other, size < sizeRange →
    get (set dictionary name size) other = if other = name then some size else get dictionary other
  get_remove : ∀ dictionary name other,
    get (remove dictionary name) other = if other = name then none else get dictionary other
  errBadRequest : List UInt8
  errBadFileSize : List UInt8
  errNoSuchFile : List UInt8

/-- The verbs of requests. -/
inductive Verb where
  | get
  | put
  | delete
  | list
  deriving DecidableEq, Repr

/-- What the server keeps about a connection; the header is only used while it is parsed. -/
structure InfoClient where
  state : Int
  method : Option Verb
  filename : Name
  deriving DecidableEq, Repr

/-- The server, with the files on disk by the paths it uses for them. -/
structure Server (library : Library) where
  files : Path → Option (List UInt8)
  filenameVec : List Name
  filenameSize : Nat
  clientDictFilesize : library.Dictionary
  clientDictionary : Nat → Option InfoClient

/-- At first the directory is empty and nobody is connected. -/
def start (library : Library) : Server library where
  files _ := none
  filenameVec := []
  filenameSize := 0
  clientDictFilesize := library.create
  clientDictionary _ := none

/-- A call that hands a path to the file system. -/
inductive FileCall where
  | access (path : Path)
  | fopen (path : Path) (mode : List Char)
  | unlink (path : Path)
  deriving DecidableEq, Repr

/-- The path of a call. -/
def FileCall.path : FileCall → Path
  | .access path => path
  | .fopen path _ => path
  | .unlink path => path

/-- What others see of an event: the paths it uses, and the bytes it sends on the connection. -/
structure Outcome where
  calls : List FileCall
  sent : List UInt8
  deriving DecidableEq, Repr

/-- What comes from outside in an event: old bytes of the stack, and the connection. -/
structure Input where
  stale : List UInt8
  reads : List Fragment
  stream : List UInt8
  writes : List Fragment
  deriving DecidableEq, Repr

section Headers

/-- The result of `read` for one byte. -/
inductive ByteRead where
  | interrupted
  | failed
  | ended
  | byte (value : UInt8)
  deriving DecidableEq, Repr

/-- `read` for one byte. -/
def readByte : List Fragment → List UInt8 → ByteRead × List Fragment × List UInt8
  | .interrupted :: fragments, stream => (.interrupted, fragments, stream)
  | .failed :: fragments, stream => (.failed, fragments, stream)
  | fragments, [] => (.ended, fragments.tail, [])
  | fragments, value :: stream => (.byte value, fragments.tail, stream)

/-- The bytes in the header buffer after a read. -/
def ByteRead.store (received : List UInt8) : ByteRead → List UInt8
  | .byte value => received ++ [value]
  | _ => received

/-- The loop of `process_header` goes on after a byte or an interruption. -/
def ByteRead.goesOn : ByteRead → Bool
  | .interrupted => true
  | .byte _ => true
  | .failed => false
  | .ended => false

/-- The string in a buffer that was all zero before these bytes were stored. -/
def cString (received : List UInt8) : List UInt8 := received.takeWhile (· ≠ 0)

/-- How reading a header ends. -/
inductive HeaderRead where
  | line (header : List UInt8) (fragments : List Fragment) (stream : List UInt8)
  | rejected
  deriving DecidableEq, Repr

/--
The loop of `process_header`, from the bytes that are in the header buffer. It has no result if a
byte is stored behind the buffer, or `strlen` leaves it. Each round uses a fragment or a byte.
-/
def readHeader : Nat → List Fragment → List UInt8 → List UInt8 → Option HeaderRead
  | 0, _, _, _ => none
  | fuel + 1, fragments, stream, received =>
    if received.length < headReadLimit then
      let read := readByte fragments stream
      -- What was read is behind what the earlier rounds have read.
      let received := read.1.store received
      if headerSize < received.length ∨ (cString received).length = headerSize then none
      -- For an empty string, the last byte of the file name is looked at, which is 0.
      else if (cString received).getLast? = some newline then
        some (.line (cString received) read.2.1 read.2.2)
      else if read.1.goesOn then readHeader fuel read.2.1 read.2.2 received
      else some .rejected
    else some .rejected

/-- The tests of `parse_request` on the header, and the file name that it copies from it. -/
def parseHeader (header : List UInt8) : Option (Verb × Name) :=
  -- The name is what follows the verb and a blank, without the newline at the end.
  if header.take 3 = ascii ['P', 'U', 'T'] then some (.put, (header.drop 4).dropLast)
  else if header.take 3 = ascii ['G', 'E', 'T'] then some (.get, (header.drop 4).dropLast)
  else if header.take 6 = ascii ['D', 'E', 'L', 'E', 'T', 'E'] then
    some (.delete, (header.drop 7).dropLast)
  else if header.take 4 = ascii ['L', 'I', 'S', 'T'] then some (.list, [])
  else none

end Headers

section Events

variable {library : Library}

/-- `get_filepath`: the directory, a slash, and the name. -/
def getFilepath (dirTemplate : Path) (filename : Name) : Path := dirTemplate ++ slash :: filename

/-- Setting what is kept about a connection. -/
def Server.setClient (st : Server library) (fd : Nat) (info : InfoClient) : Server library :=
  { st with clientDictionary := Function.update st.clientDictionary fd (some info) }

@[simp] theorem Server.setClient_same (st : Server library) (fd : Nat) (info : InfoClient) :
    (st.setClient fd info).clientDictionary fd = some info :=
  Function.update_self _ _ _

/-- Closing a connection. -/
def Server.close (st : Server library) (fd : Nat) : Server library :=
  { st with clientDictionary := Function.update st.clientDictionary fd none }

@[simp] theorem Server.close_same (st : Server library) (fd : Nat) :
    (st.close fd).clientDictionary fd = none :=
  Function.update_self _ _ _

/-- Storing a file at a path, or unlinking it. -/
def Server.setFile (st : Server library) (path : Path) (content : Option (List UInt8)) :
    Server library :=
  { st with files := Function.update st.files path content }

/-- The size that a `PUT` declares; bytes that did not come are those of the stack. -/
def declaredSize (stale got : List UInt8) : Nat :=
  ofLittleEndian ((got ++ stale.drop got.length).take sizeBytes)

/-- The tables after a file was stored; the file was there before or is new. -/
def Server.record (st : Server library) (filename : Name) (fileSize : Nat) (isExisted : Bool) :
    Server library :=
  { st with
    filenameVec := if isExisted then st.filenameVec else st.filenameVec ++ [filename]
    filenameSize :=
      if isExisted then st.filenameSize
      else (st.filenameSize + filename.length) % sizeRange
    clientDictFilesize := library.set st.clientDictFilesize filename fileSize }

/-- The tables hold no contents. -/
@[simp] theorem Server.record_files (st : Server library) (filename : Name) (fileSize : Nat)
    (isExisted : Bool) : (st.record filename fileSize isExisted).files = st.files := rfl

/-- The part of `parse_request` for a `PUT`: the server after it, whether it accepts, the calls. -/
def put (dirTemplate : Path) (st : Server library) (filename : Name) (input : Input)
    (fragments : List Fragment) (stream : List UInt8) :
    Option (Server library × Bool × List FileCall) :=
  let path := getFilepath dirTemplate filename
  let isExisted := (st.files path).isSome
  let size := readAllFromSocket fragments stream sizeBytes
  let fileSize := declaredSize input.stale size.bytes
  let calls := [.access path, .fopen path ['w', '+']]
  -- Five more bytes are read than declared, in the arithmetic of a `size_t`.
  -- The file is written while the bytes arrive, so an old content is lost at once.
  match receiveBlocks (size.stream.length + 1) size.fragments size.stream
      ((fileSize + 5) % sizeRange) with
  | none => none
  | some (content, _, _) =>
    -- A file that is too short or too long is unlinked, but the tables stay as they are.
    if content.length ≠ fileSize then
      some (st.setFile path none, false, calls ++ [.unlink path])
    else some ((st.setFile path (some content)).record filename fileSize isExisted, true, calls)

/-- `parse_request`. -/
def parseRequest (dirTemplate : Path) (st : Server library) (fd : Nat) (info : InfoClient)
    (header : List UInt8) (input : Input) (fragments : List Fragment) (stream : List UInt8) :
    Option (Server library × Outcome) :=
  match parseHeader header with
  -- An unknown verb is a bad request.
  | none => some (st.setClient fd { info with state := -1 }, ⟨[], []⟩)
  | some (.put, filename) =>
    match put dirTemplate st filename input fragments stream with
    | none => none
    | some (st, accepted, calls) =>
      some (st.setClient fd ⟨if accepted then 1 else -2, some .put, filename⟩, ⟨calls, []⟩)
  -- The other requests are carried out at the next event of the connection.
  | some (verb, filename) => some (st.setClient fd ⟨1, some verb, filename⟩, ⟨[], []⟩)

/-- `process_header`. -/
def processHeader (dirTemplate : Path) (st : Server library) (fd : Nat) (info : InfoClient)
    (input : Input) : Option (Server library × Outcome) :=
  match readHeader (input.reads.length + input.stream.length + 1) input.reads input.stream [] with
  | none => none
  | some .rejected => some (st.setClient fd { info with state := -1 }, ⟨[], []⟩)
  | some (.line header fragments stream) =>
    parseRequest dirTemplate st fd info header input fragments stream

/-- The names of a listing, as they are written one after the other. -/
def listingPieces : List Name → List (List UInt8)
  | [] => []
  | [filename] => [filename]
  | filename :: rest => filename :: [newline] :: listingPieces rest

/-- The size that a listing announces. -/
def listingSize (st : Server library) : Nat :=
  let filesize := (st.filenameVec.length + st.filenameSize) % sizeRange
  -- There is one newline less than there are names.
  if 0 < st.filenameVec.length then (filesize + sizeRange - 1) % sizeRange else filesize

/-- The reply to a request that was carried out. -/
abbrev okReply : List UInt8 := ascii ['O', 'K', '\n']

/-- The part of `process_method` for a `GET`; without a result for the connection it is -1. -/
def processGet (dirTemplate : Path) (st : Server library) (filename : Name)
    (writes : List Fragment) : Option (Bool × Outcome) :=
  let path := getFilepath dirTemplate filename
  let calls := [.fopen path ['r']]
  match st.files path with
  | none => some (false, ⟨calls, []⟩)
  | some file =>
    -- The size of a file that is not in the dictionary is read through `NULL`.
    match library.get st.clientDictFilesize filename with
    | none => none
    | some filesize =>
      -- Reply, size and content follow each other on the connection.
      let ok := writeAllToSocket writes okReply
      let size := writeAllToSocket ok.fragments (littleEndian sizeBytes filesize)
      match localfileWrite (file.length + 1) size.fragments file filesize with
      | none => none
      | some sent => some (sent.returned.isSome, ⟨calls, ok.bytes ++ size.bytes ++ sent.bytes⟩)

/-- The tables after a name was deleted. -/
def Server.forget (st : Server library) (filename : Name) : Server library :=
  { st with
    filenameVec := st.filenameVec.erase filename
    filenameSize := (st.filenameSize + sizeRange - filename.length % sizeRange) % sizeRange
    clientDictFilesize := library.remove st.clientDictFilesize filename }

/-- The tables hold no contents. -/
@[simp] theorem Server.forget_files (st : Server library) (filename : Name) :
    (st.forget filename).files = st.files := rfl

/-- The part of `process_method` for a `DELETE`. -/
def processDelete (dirTemplate : Path) (st : Server library) (filename : Name)
    (writes : List Fragment) : Server library × Bool × Outcome :=
  let path := getFilepath dirTemplate filename
  if st.files path = none then (st, false, ⟨[.access path], []⟩)
  else
    let st := st.setFile path none
    let calls := [.access path, .unlink path]
    -- The loop over the vector erases the first entry of the name.
    if filename ∈ st.filenameVec then
      (st.forget filename, true, ⟨calls, (writeAllToSocket writes okReply).bytes⟩)
    else (st, false, ⟨calls, []⟩)

/-- `process_method`: the server after it, whether the connection is done, and the outcome. -/
def processMethod (dirTemplate : Path) (st : Server library) (info : InfoClient)
    (writes : List Fragment) : Option (Server library × Bool × Outcome) :=
  match info.method with
  -- The content was stored when the header was read.
  | some .put => some (st, true, ⟨[], (writeAllToSocket writes okReply).bytes⟩)
  | some .list =>
    some (st, true, ⟨[], writeEach writes
      (okReply :: littleEndian sizeBytes (listingSize st) :: listingPieces st.filenameVec)⟩)
  | some .get =>
    match processGet dirTemplate st info.filename writes with
    | none => none
    | some (done, outcome) => some (st, done, outcome)
  | some .delete => some (processDelete dirTemplate st info.filename writes)
  | none => some (st, true, ⟨[], []⟩)

/-- `process_error`. -/
def processError (library : Library) (info : InfoClient) (writes : List Fragment) : Outcome :=
  let text :=
    if info.state = -1 then [library.errBadRequest]
    else if info.state = -2 then [library.errBadFileSize]
    else if info.state = -3 then [library.errNoSuchFile]
    else []
  ⟨[], writeEach writes (ascii ['E', 'R', 'R', 'O', 'R', '\n'] :: text)⟩

/-- An event of the loop in `run_epoll`: a new connection, or one that is ready. -/
inductive Event where
  | accept (fd : Nat)
  | ready (fd : Nat) (input : Input)
  deriving DecidableEq, Repr

/-- What `run_epoll` does at one event. -/
def runEpoll (dirTemplate : Path) (st : Server library) :
    Event → Option (Server library × Outcome)
  | .accept fd =>
    -- The kernel hands out a descriptor that is not in use.
    if st.clientDictionary fd = none then some (st.setClient fd ⟨0, none, []⟩, ⟨[], []⟩) else none
  | .ready fd input =>
    match st.clientDictionary fd with
    | none => none
    | some info =>
      -- The state of the connection says what its event is about.
      if info.state = 0 then processHeader dirTemplate st fd info input
      else if info.state = 1 then
        match processMethod dirTemplate st info input.writes with
        | none => none
        | some (st, true, outcome) => some (st.close fd, outcome)
        -- The connection stays, and its next event sends the error.
        | some (st, false, outcome) =>
          some (st.setClient fd { info with state := -3 }, outcome)
      else some (st.close fd, processError library info input.writes)

end Events

end SystemProgramming.FileServer
