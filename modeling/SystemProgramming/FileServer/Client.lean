import SystemProgramming.FileServer.Server

/-! The client: the requests it sends, and what it makes of the replies. -/

namespace SystemProgramming.FileServer

open Foundations

/-- The text of a verb. -/
def Verb.text : Verb → List UInt8
  | .get => ascii ['G', 'E', 'T']
  | .put => ascii ['P', 'U', 'T']
  | .delete => ascii ['D', 'E', 'L', 'E', 'T', 'E']
  | .list => ascii ['L', 'I', 'S', 'T']

/-- The buffer that `send_request` writes. -/
def requestBuff (verb : Verb) (remote : Name) : List UInt8 :=
  match verb with
  -- A listing has no file name.
  | .list => verb.text ++ [newline]
  | _ => verb.text ++ (ascii [' '] ++ (remote ++ [newline]))

/-- What the client reports at the end of a transfer. -/
inductive Report where
  | complete
  | tooMuchData
  | tooLittleData
  deriving DecidableEq, Repr

/-- What the client has written to its local file, or printed, and what it reports. -/
structure Fetched where
  content : List UInt8
  report : Report
  deriving DecidableEq, Repr

/-- How many bytes came, compared with how many were announced. -/
def reportOf (announced count : Nat) : Report :=
  if announced < count then .tooMuchData
  else if count < announced then .tooLittleData
  else .complete

/-- `handle_get`; the stream holds what comes until the server closes the connection. -/
def handleGet (stale : List UInt8) (reads : List Fragment) (stream : List UInt8) :
    Option Fetched :=
  let size := readAllFromSocket reads stream sizeBytes
  -- Five more bytes than announced are asked for, to notice too much data.
  let fileSize := declaredSize stale size.bytes
  match receiveBlocks (size.stream.length + 1) size.fragments size.stream
      ((fileSize + 5) % sizeRange) with
  | none => none
  | some (content, _, _) => some ⟨content, reportOf fileSize content.length⟩

/-- `handle_list`, with the names that it prints; without a result the connection has failed. -/
def handleList (stale : List UInt8) (reads : List Fragment) (stream : List UInt8) :
    Option Fetched :=
  let head := readAllFromSocket reads stream sizeBytes
  let size := declaredSize stale head.bytes
  -- One call asks for four bytes more than announced.
  let names := readAllFromSocket head.fragments head.stream ((size + 5) % sizeRange - 1)
  match names.returned with
  | none => none
  | some readNum => some ⟨names.bytes, reportOf size readNum⟩

/-- `handle_response` for a reply that is to be good, from its first three bytes. -/
def handleResponse (handle : List Fragment → List UInt8 → Option Fetched)
    (reads : List Fragment) (stream : List UInt8) : Option Fetched :=
  let response := readAllFromSocket reads stream 3
  -- Any other reply is reported as an error, or as invalid.
  if response.returned ≠ none ∧ response.bytes = okReply then
    handle response.fragments response.stream
  else none

/-- What a user of the client gets to see. -/
inductive Shown where
  | connectionClosed
  | success
  | saved (fetched : Fetched)
  | listed (fetched : Fetched)
  | invalidResponse
  | errorMessage (message : List UInt8)
  deriving DecidableEq, Repr

/-- Old bytes of the client's memory: of its sizes, behind its reply, and in its error message. -/
structure Stale where
  size : List UInt8
  response : List UInt8
  message : List UInt8

/-- The length of the messages that the client prints. -/
abbrev messageSize : Nat := 20

/--
`handle_error_response`, for a reply of which some bytes were read. The buffer was zero up to four
bytes, and what `realloc` and the stack add to it and to the message is not set.
-/
def handleErrorResponse (stale : Stale) (reads : List Fragment) (stream response : List UInt8) :
    Shown :=
  let error := ascii ['E', 'R', 'R', 'O', 'R', '\n']
  let rest := readAllFromSocket reads stream (error.length - response.length)
  let got := response ++ rest.bytes
  let buffer := got ++ (List.replicate 4 0 ++ stale.response).drop got.length
  if cString (buffer.take error.length) ≠ error then .invalidResponse
  else
    let message := readAllFromSocket rest.fragments rest.stream messageSize
    match message.returned with
    | none => .connectionClosed
    | some _ =>
      .errorMessage (cString
        ((message.bytes ++ stale.message.drop message.bytes.length).take messageSize))

/--
What follows a good reply in `handle_response`. The loop of `handle_get` is undefined after a failed
read.
-/
def Verb.handleOk (verb : Verb) (stale : Stale) (reads : List Fragment) (stream : List UInt8) :
    Option Shown :=
  match verb with
  | .put | .delete => some .success
  | .get => (handleGet stale.size reads stream).map .saved
  | .list =>
    match handleList stale.size reads stream with
    | none => some .connectionClosed
    | some fetched => some (.listed fetched)

/-- `handle_response`, with all that the client does with the reply to a verb. -/
def Verb.handleResponse (verb : Verb) (stale : Stale) (reads : List Fragment)
    (stream : List UInt8) : Option Shown :=
  let response := readAllFromSocket reads stream 3
  match response.returned with
  | none => some .connectionClosed
  | some _ =>
    if cString response.bytes = okReply then
      verb.handleOk stale response.fragments response.stream
    else some (handleErrorResponse stale response.fragments response.stream response.bytes)

end SystemProgramming.FileServer
