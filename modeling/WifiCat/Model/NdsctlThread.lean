import WifiCat.Library.WhileLoop
import WifiCat.Model.Centerserver
import WifiCat.Model.Daemon

/-!
# The control socket

`ndsctl_thread.c`: a thread reads a request from a connection, up to the first line break,
and calls the function of the command.  `ndsctl.c` is the program at the other end, which
writes the request.
-/

set_option autoImplicit false

namespace WifiCat

open Scan CommandProgram

/-- The functions a request may lead to. -/
inductive NdsctlHandler
  | status | clients | stop | mac (request : MacRequest) | auth | deauth | loglevel | password
  | username
deriving DecidableEq, Repr

/-- What a request leads to: the function, and the argument of one that takes an argument. -/
abbrev NdsctlCall : Type := NdsctlHandler × Option Text

/-- The names the request is compared with, in order, and the place of the argument.
SOURCE: ndsctl_thread.c:194-222 -/
def ndsctlTable : List (Text × NdsctlHandler × Option ℕ) :=
  [("status".toList, .status, none),
   ("clients".toList, .clients, none),
   ("stop".toList, .stop, none),
   ("block".toList, .mac .block, some 6),
   ("unblock".toList, .mac .unblock, some 8),
   ("allow".toList, .mac .allow, some 6),
   ("unallow".toList, .mac .unallow, some 8),
   ("trust".toList, .mac .trust, some 6),
   ("untrust".toList, .mac .untrust, some 8),
   ("auth".toList, .auth, some 5),
   ("deauth".toList, .deauth, some 7),
   ("loglevel".toList, .loglevel, some 9),
   ("password".toList, .password, some 9),
   ("username".toList, .username, some 9)]

/-- The function that is called for a request that starts at `memory`, and the argument it is
called with.
SOURCE: ndsctl_thread.c:194-222 -/
def ndsctlDispatch (memory : Text) : Option NdsctlCall :=
  (ndsctlTable.find? fun entry => entry.1.isPrefixOf memory).map fun entry =>
    (entry.2.1, entry.2.2.map fun offset => cString (memory.drop offset))

/-! ## Reading a request -/

/-- How `read` answers once the stream is used up, every time: 0, or -1. -/
inductive StreamEnd
  | endOfFile | error
deriving DecidableEq, Repr

/-- The state of the loop that reads: the pieces `read` has not answered with yet, and the
variables. -/
structure NdsctlReading where
  chunks : List Text
  request : Text
  readBytes : ℤ
  done : Bool

/-- SOURCE: ndsctl_thread.c:170-173 -/
def ndsctlReadingInit (chunks : List Text) : NdsctlReading :=
  { chunks := chunks, request := List.replicate MAX_BUF '\x00', readBytes := 0, done := false }

/-- The loop's condition; `sizeof` makes the comparison one of unsigned numbers.
SOURCE: ndsctl_thread.c:176 -/
def NdsctlReading.wants (r : NdsctlReading) : Bool :=
  !r.done && decide (0 ≤ r.readBytes ∧ r.readBytes < MAX_BUF - 1)

/-- The bytes that `read` answers with are written behind the others; each line break among
them becomes a NUL.
SOURCE: ndsctl_thread.c:177-189 -/
def NdsctlReading.receive (chunk : Text) (r : NdsctlReading) : NdsctlReading :=
  let n := r.readBytes.toNat
  let bytes := chunk.take (MAX_BUF - n)
  { r with
    request := r.request.take n ++ bytes.map (fun c => if isBreak c then '\x00' else c) ++
      r.request.drop (n + bytes.length)
    readBytes := r.readBytes + bytes.length
    done := r.done || bytes.any isBreak }

/-- The body of the loop.
SOURCE: ndsctl_thread.c:177-189 -/
def ndsctlRead (ending : StreamEnd) (r : NdsctlReading) : NdsctlReading :=
  match r.chunks with
  | chunk :: chunks => ({ r with chunks := chunks }).receive chunk
  | [] =>
    match ending with
    | .endOfFile => r.receive []
    | .error => { r with readBytes := r.readBytes - 1 }

/-- `thread_ndsctl_handler`: the call a connection leads to; `none` when the loop has not
ended.  `beyond` is what stands in memory behind the buffer.
SOURCE: ndsctl_thread.c:154-238 -/
def threadNdsctlHandler (beyond : Text) (ending : StreamEnd) (chunks : List Text) (fuel : ℕ) :
    Option (Option NdsctlCall) :=
  (WhileLoop.run NdsctlReading.wants (ndsctlRead ending) fuel (ndsctlReadingInit chunks)).map
    fun r => ndsctlDispatch (r.request ++ beyond)

/-- The request to the daemon that a call makes, where it has one: `stop` ends the daemon, the
others only read its state or set values that nothing modelled here reads.
SOURCE: ndsctl_thread.c:240-523 -/
def NdsctlCall.request (m : Moment) : NdsctlCall → Option Request
  | (.mac request, some arg) => some (.ndsctlMac request arg)
  | (.auth, some arg) => some (.ndsctlAuth m arg)
  | (.deauth, some arg) => some (.ndsctlDeauth arg)
  | _ => none

/-- The daemon after a call.
SOURCE: ndsctl_thread.c:194-222 -/
def serveCall (m : Moment) (call : Option NdsctlCall) (w : World) : Program World :=
  match call.bind (NdsctlCall.request m) with
  | none => pure w
  | some request => serve w request

/-! ## Writing a request -/

/-- SOURCE: ndsctl.h:33 -/
def NDSCTL_TERMINATOR : Text := "\r\n\r\n".toList

/-- The commands of `ndsctl` that take a parameter. -/
inductive NdsctlCommand
  | block | unblock | allow | unallow | trust | untrust | auth | deauth | loglevel | password
  | username
deriving DecidableEq, Repr

/-- What `ndsctl_action` is called with for a command.
SOURCE: ndsctl.c:395-483 -/
def NdsctlCommand.cmd : NdsctlCommand → Text
  | .block => "block".toList
  | .unblock => "unblock".toList
  | .allow => "allow".toList
  | .unallow => "unallow".toList
  | .trust => "trust".toList
  | .untrust => "untrust".toList
  | .auth => "auth".toList
  | .deauth => "deauth".toList
  | .loglevel => "loglevel".toList
  | .password => "password".toList
  | .username => "username".toList

/-- The request of `ndsctl_action`, in its buffer of 128 bytes.
SOURCE: ndsctl.c:316-318 -/
def ndsctlActionRequest (cmd param : Text) : Text :=
  (cmd ++ " ".toList ++ param).take (128 - NDSCTL_TERMINATOR.length - 1) ++ NDSCTL_TERMINATOR

/-- `send_request` from the `len`-th byte on: what it transmits, given the numbers of bytes
that `write` takes; `none` when a `write` fails.
SOURCE: ndsctl.c:282-299 -/
def sendRequest (request : Text) : ℕ → List ℕ → Option Text
  | len, writes =>
    if len = request.length then some []
    else
      match writes with
      | [] => none
      | w :: writes =>
        let written := (request.drop len).take w
        (sendRequest request (len + written.length) writes).map (written ++ ·)

end WifiCat
