import WifiCat.Model.HttpdContent

/-!
# A connection to the web server

`thread_httpd` reads a request from a connection and calls what the path leads to.  The contents
and the configuration do not change while the server runs.
-/

set_option autoImplicit false

namespace WifiCat

open Scan CommandProgram PieceReader

/-- `authtarget` of a `t_auth_target`: the link that authenticates a client.
SOURCE: http.c:680-688 -/
def httpAuthLink (target : RemoteTarget) : Text :=
  target.authaction ++ "?redir=".toList ++ httpdUrlEncode target.redir ++
    "&tok=".toList ++ httpdUrlEncode target.token

/-- What the server is started with. -/
structure HttpdServer where
  remote : RemoteAuth
  dirs : WebDirs
  files : HttpFiles

/-- The registered contents, with the directory that the links lead to. -/
def HttpdServer.content (server : HttpdServer) : HttpDir :=
  webserverContent { server.dirs with authdir := server.remote.authdir }

/-- What comes over a connection: the client's address, the bytes in the pieces in which they are
received, and what stands on the stack of the thread. -/
structure HttpdConnection where
  clientAddr : Text
  pieces : List Text
  stack : Text

/-- What a thread takes from outside when it calls a function. -/
structure HttpdMoment where
  arrival : Moment
  http : HttpMoment

/-- What is written back. -/
inductive HttpdReply
  | methodError (written : Text)
  | invalidPath
  | contact (reply : ContactReply) (contentType : Text)
  | callback (reply : Option HttpReply)
  | file (path contentType content : Text)
deriving DecidableEq, Repr

/-- The request as the first contact gets it; a request without a method is not a GET either.
SOURCE: http.c:126-198 -/
def HttpdRead.captured (read : HttpdRead) (clientAddr : Text) : CapturedRequest :=
  { clientAddr := clientAddr
    method := read.request.method.getD .post
    host := read.request.host
    path := read.request.path
    query := read.request.query }

/-- The request as the other functions get it.
SOURCE: http.c:587-612 -/
def HttpdRead.toHttpRequest (read : HttpdRead) (clientAddr : Text) : HttpRequest :=
  { clientAddr := clientAddr
    tok := (httpdGetVariableByName read.vars "tok".toList).map HttpVar.value
    redir := (httpdGetVariableByName read.vars "redir".toList).map HttpVar.value }

/-- The function that a path leads to is called.
SOURCE: api.c:995-1001, gateway.c:273-277, http.c:126-150, 366-397 -/
def httpdCall (server : HttpdServer) (moment : HttpdMoment) (clientAddr : Text) (read : HttpdRead)
    (w : World) : HttpdOutcome → Program (HttpdReply × World)
  | .invalidPath => pure (.invalidPath, w)
  | .file path contentType content => pure (.file path contentType content, w)
  | .call .index contentType | .call .notFound contentType =>
    let contact := httpFirstContact server.remote moment.arrival (read.captured clientAddr) w
    pure (.contact contact.1 contentType, contact.2)
  | .call .auth _ => do
    let r ← httpCallbackAuth server.remote.toAuthServer moment.arrival moment.http
      (read.toHttpRequest clientAddr) w
    pure (.callback r.1, r.2)
  | .call .deny _ => do
    let r ← httpCallbackDeny server.remote.toAuthServer moment.http (read.toHttpRequest clientAddr) w
    pure (.callback r.1, r.2)

/-- `thread_httpd`.
SOURCE: httpd_thread.c:53-93 -/
def threadHttpd (server : HttpdServer) (moment : HttpdMoment) (connection : HttpdConnection)
    (w : World) : Program (HttpdReply × World) :=
  let read := httpdReadRequest connection.stack ⟨[], connection.pieces⟩
  if read.rc = 0 then
    httpdCall server moment connection.clientAddr read w
      (httpdProcessRequest server.files server.content read.request.path)
  else pure (.methodError read.written, w)

end WifiCat
