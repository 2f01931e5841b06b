import SystemProgramming.FileServer.Sessions

/-! Conversations: what users of the client see of the store behind the server. -/

namespace SystemProgramming.FileServer

open Foundations

section Requests

/-- The verb with which a client asks for an operation. -/
def Operation.verb : Operation → Option Verb
  | .put _ _ => some .put
  | .get _ => some .get
  | .delete _ => some .delete
  | .list => some .list
  | .malformed => none

variable {verb : Verb} {input : Input} {remote : Name} {file : List UInt8}

end Requests

section Replies

variable {library : Library} {reads : List Fragment} {stale : Stale} {rest text : List UInt8}
  {verb : Verb} {operation : Operation} {store : Store}

end Replies

variable {library : Library} {dirTemplate : Path} {final : Server library}
  {trace : List (Transition (Server library) Action)}

end SystemProgramming.FileServer
