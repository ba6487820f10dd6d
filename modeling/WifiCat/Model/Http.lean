import WifiCat.Model.Centerserver
import WifiCat.Model.Daemon

/-!
# The web server's handlers

`http.c`: a client asks to be authenticated or deauthenticated, and the token it brings is
verified by the auth server.  `libhttpd` hands the handlers a request whose variables are
decoded; what they write back is an `HttpReply`.
-/

set_option autoImplicit false

namespace WifiCat

open Scan CommandProgram

/-- A request, as far as the handlers read it. -/
structure HttpRequest where
  clientAddr : Text
  tok : Option Text
  redir : Option Text

/-- What a handler takes from outside: the ARP table when it looks for the client's MAC
address, the exchange with the auth server, the value a function ends with that does not
return one, and how long name look-ups may go on. -/
structure HttpMoment where
  arpTable : Text
  net : Network
  leftover : ℤ
  fuel : ℕ

/-- What is written back. -/
inductive HttpReply
  | nothing
  | info (title content : String)
  | redirect (url : Text)
deriving DecidableEq, Repr

/-- The part of a `t_auth_target` the handlers read. -/
structure AuthTarget where
  token : Option Text
  redir : Option Text

/-- `http_nodogsplash_decode_authtarget`: a variable that is missing is empty.
SOURCE: http.c:587-612 -/
def httpDecodeAuthtarget (r : HttpRequest) : AuthTarget :=
  { token := some (r.tok.getD []), redir := some (r.redir.getD []) }

/-- A number as `%d` prints it. -/
def decimal (n : ℤ) : Text := (toString n).toList

/-- The query of the question about a token, in its buffer of 128 bytes.
SOURCE: http.c:215-216 -/
def tokenQuery (uid : ℤ) (requestToken mac : Text) : Text :=
  ("?uid=".toList ++ decimal uid ++ "&token=".toList ++ requestToken ++ "&mac=".toList ++
    mac).take 127

/-- The exchange `token_verify` makes; `none` when the name look-ups have not ended.
SOURCE: http.c:209-217 -/
def tokenExchange (server : AuthServer) (moment : HttpMoment) (requestToken mac : Text) :
    Option Exchange :=
  (resolveHost moment.net.lookup server.authServer moment.fuel 0).map fun resolved =>
    match resolved with
    | none => { sent := none, received := none }
    | some ip => httpGetRequest moment.net ip server.tokenVerifyPath
        (tokenQuery server.uid requestToken mac) VERSION MAX_BUF

/-- `token_verify`.  An answer without an end of headers leaves through `return;`, and the
caller reads whatever is in the place of the value.
SOURCE: http.c:203-240 -/
def tokenVerify (server : AuthServer) (moment : HttpMoment) (requestToken mac : Text) :
    Option ℤ :=
  (tokenExchange server moment requestToken mac).map fun exchange =>
    match exchange.received with
    | none => -1
    | some buf =>
      match strstrAfter CRLFCRLF (cString buf) with
      | none => moment.leftover
      | some result => if result = "1".toList then 1 else 0

/-- The error pages.
SOURCE: http.c:287-289, 315, 341-342 -/
def notOnClientList : HttpReply := .info "Nodogsplash Error" "You are not on the client list."
def tokensDoNotMatch : HttpReply := .info "Nodogsplash Error" "Tokens do not match."
def authenticationRevoked : HttpReply := .info "Nodogsplash Deny" "Authentication revoked."

/-- `http_nodogsplash_callback_action`; the reply is `none` when it has not returned.
SOURCE: http.c:242-352 -/
def httpCallbackAction (server : AuthServer) (moment : HttpMoment) (r : HttpRequest)
    (authtarget : AuthTarget) (action : AuthAction) (w : World) :
    Program (Option HttpReply × World) :=
  let ip := r.clientAddr
  match authtarget.token, authtarget.redir with
  | some requestToken, some redir =>
    match arpGet moment.arpTable ip with
    | none => pure (some .nothing, w)
    | some mac =>
      match clientListFind ip mac w.clients with
      | none => pure (some notOnClientList, w)
      | some client =>
        match client.token with
        | none => pure (some .nothing, w)
        | some _ =>
          match tokenVerify server moment requestToken mac with
          | none => pure (none, w)
          | some verified =>
            if verified ≤ 0 then pure (some tokensDoNotMatch, w)
            else do
              let w ← authClientAction ip mac action w
              match action with
              | .makeAuthenticated => pure (some (.redirect redir), w)
              | .makeDeauthenticated => pure (some authenticationRevoked, w)
  | _, _ => pure (some .nothing, w)

/-- `http_nodogsplash_callback_auth`.
SOURCE: http.c:366-385 -/
def httpCallbackAuth (server : AuthServer) (arrival : Moment) (moment : HttpMoment)
    (r : HttpRequest) (w : World) : Program (Option HttpReply × World) :=
  let added := addClient arrival r.clientAddr w
  match added.1 with
  | none => pure (some .nothing, added.2)
  | some _ =>
    httpCallbackAction server moment r (httpDecodeAuthtarget r) .makeAuthenticated added.2

/-- `http_nodogsplash_callback_deny`.
SOURCE: http.c:388-397 -/
def httpCallbackDeny (server : AuthServer) (moment : HttpMoment) (r : HttpRequest) (w : World) :
    Program (Option HttpReply × World) :=
  httpCallbackAction server moment r (httpDecodeAuthtarget r) .makeDeauthenticated w

end WifiCat
