import WifiCat.Model.Http

/-!
# Handlers that run at the same time

The web server and the control socket start a thread for each request, and a timer refreshes
the client list.  A handler is a thread between two of its steps: a step is one section that
holds the client list's lock, or what the thread does by itself between two of them.  A
`Pool` is the handlers with the state they share, and a schedule says which handler makes
the next step, and what it takes from outside there.
-/

set_option autoImplicit false

namespace WifiCat

open Scan CommandProgram

/-- What a handler writes back. -/
inductive Answer
  | http (reply : HttpReply)
  | ndsctl (reply : Reply)
deriving DecidableEq, Repr

/-- A handler: the place it has reached, and the variables it needs from there on. -/
inductive Handler
  /-- `http_nodogsplash_callback_auth`, before the client is added. -/
  | callbackAuth (r : HttpRequest)
  /-- `http_nodogsplash_callback_action`, before the client is looked up. -/
  | callbackAction (ip : Text) (target : AuthTarget) (action : AuthAction)
  /-- The same, before the token is verified. -/
  | verifying (ip mac requestToken redir : Text) (action : AuthAction)
  /-- `ndsctl_auth`, before the client is added. -/
  | ndsctlAuth (arg : Text)
  /-- `ndsctl_deauth`, before the client is looked up. -/
  | ndsctlDeauth (arg : Text)
  /-- Before `auth_client_action`. -/
  | acting (ip mac : Text) (action : AuthAction) (answer : Answer)
  /-- Behind it, before the answer. -/
  | acted (ip mac : Text) (action : AuthAction) (answer : Answer)
  /-- The answer is written. -/
  | answered (ip mac : Text) (action : AuthAction) (answer : Answer)
  /-- Ended without an action. -/
  | ended (answer : Answer)
  /-- `fw_refresh_client_list`, with the lines of the outgoing chain still to count. -/
  | countingOutgoing (input : RefreshInput) (lines : List (CounterLine × ℕ))
  /-- The same, with the lines of the incoming chain. -/
  | countingIncoming (input : RefreshInput) (lines : List CounterLine)
  /-- The same, before the loop. -/
  | refreshing (input : RefreshInput)
  /-- The list has been refreshed. -/
  | refreshed

/-- What a step takes from outside. -/
structure StepInput where
  arrival : Moment
  http : HttpMoment

/-- What the HTTP handler serves after an action.
SOURCE: http.c:335-344 -/
def actionAnswer (redir : Text) : AuthAction → Answer
  | .makeAuthenticated => .http (.redirect redir)
  | .makeDeauthenticated => .http authenticationRevoked

/-- `http_nodogsplash_callback_deny` from its start.
SOURCE: http.c:388-397 -/
def Handler.callbackDeny (r : HttpRequest) : Handler :=
  .callbackAction r.clientAddr (httpDecodeAuthtarget r) .makeDeauthenticated

/-- `fw_refresh_client_list` from its start.
SOURCE: firewall.c:154-158, fw_iptables.c:892-900 -/
def Handler.refresh (input : RefreshInput) : Handler :=
  match input.outgoing with
  | none => .refreshed
  | some lines => .countingOutgoing input lines.zipIdx

/-- One step of a handler.
SOURCE: http.c:242-414, ndsctl_thread.c:275-344, auth.c:93-134, firewall.c:149-199,
fw_iptables.c:880-970 -/
def Handler.step (server : AuthServer) (input : StepInput) (w : World) :
    Handler → Program (Handler × World)
  | .callbackAuth r =>
    let added := addClient input.arrival r.clientAddr w
    match added.1 with
    | none => pure (.ended (.http .nothing), added.2)
    | some _ =>
      pure (.callbackAction r.clientAddr (httpDecodeAuthtarget r) .makeAuthenticated, added.2)
  | .callbackAction ip target action =>
    match target.token, target.redir with
    | some requestToken, some redir =>
      match arpGet input.http.arpTable ip with
      | none => pure (.ended (.http .nothing), w)
      | some mac =>
        match clientListFind ip mac w.clients with
        | none => pure (.ended (.http notOnClientList), w)
        | some client =>
          match client.token with
          | none => pure (.ended (.http .nothing), w)
          | some _ => pure (.verifying ip mac requestToken redir action, w)
    | _, _ => pure (.ended (.http .nothing), w)
  | .verifying ip mac requestToken redir action =>
    match tokenVerify server input.http requestToken mac with
    -- the name look-ups go on
    | none => pure (.verifying ip mac requestToken redir action, w)
    | some verified =>
      if verified ≤ 0 then pure (.ended (.http tokensDoNotMatch), w)
      else pure (.acting ip mac action (actionAnswer redir action), w)
  | .ndsctlAuth arg =>
    let added := addClient input.arrival arg w
    match added.1 with
    | none => pure (.ended (.ndsctl .No), added.2)
    | some client =>
      pure (.acting client.ip client.mac .makeAuthenticated (.ndsctl .Yes), added.2)
  | .ndsctlDeauth arg =>
    match (clientListFindByIp arg w.clients).or (clientListFindByMac arg w.clients) with
    | none => pure (.ended (.ndsctl .No), w)
    | some client =>
      pure (.acting client.ip client.mac .makeDeauthenticated (.ndsctl .Yes), w)
  | .acting ip mac action answer => do
    let w ← authClientAction ip mac action w
    pure (.acted ip mac action answer, w)
  | .acted ip mac action answer => pure (.answered ip mac action answer, w)
  | .countingOutgoing input (line :: lines) =>
    pure (.countingOutgoing input lines,
      { w with clients := updateOutgoing (input.readAt line.2) line.1 w.clients })
  | .countingOutgoing input [] =>
    match input.incoming with
    | none => pure (.refreshed, w)
    | some lines => pure (.countingIncoming input lines, w)
  | .countingIncoming input (line :: lines) =>
    pure (.countingIncoming input lines, { w with clients := updateIncoming line w.clients })
  | .countingIncoming input [] => pure (.refreshing input, w)
  | .refreshing input => do
    let w ← w.clients.firstclient.zipIdx.foldlM
      (fun w n => refreshClient (input.now n.2) n.1 w) w
    pure (.refreshed, w)
  | .answered ip mac action answer => pure (.answered ip mac action answer, w)
  | .ended answer => pure (.ended answer, w)
  | .refreshed => pure (.refreshed, w)

/-- A handler that runs alone. -/
def Handler.steps (server : AuthServer) (inputs : List StepInput) (handler : Handler) (w : World) :
    Program (Handler × World) :=
  inputs.foldlM (fun r input => r.1.step server input r.2) (handler, w)

/-- What a handler has written back. -/
def Handler.answer : Handler → Option Answer
  | .answered _ _ _ answer => some answer
  | .ended answer => some answer
  | _ => none

/-- The handlers, the daemon's state and the machine. -/
structure Pool where
  handlers : List Handler
  world : World
  host : Host

/-- The next step: which handler makes it, and what it takes from outside. -/
abbrev Turn : Type := ℕ × StepInput

/-- One handler makes a step. -/
def Pool.step (out : Outside) (server : AuthServer) (p : Pool) (turn : Turn) : Pool :=
  match p.handlers[turn.1]? with
  | none => p
  | some handler =>
    let r := runOn out (handler.step server turn.2 p.world) p.host
    { handlers := p.handlers.set turn.1 r.1.1, world := r.1.2, host := r.2 }

/-- The pool after the steps of a schedule. -/
def Pool.run (out : Outside) (server : AuthServer) (p : Pool) (schedule : List Turn) : Pool :=
  schedule.foldl (Pool.step out server) p

/-- The handlers have not made a step yet. -/
inductive Handler.Starts : Handler → Prop
  | callbackAuth (r : HttpRequest) : Starts (.callbackAuth r)
  | callbackDeny (r : HttpRequest) : Starts (.callbackDeny r)
  | ndsctlAuth (arg : Text) : Starts (.ndsctlAuth arg)
  | ndsctlDeauth (arg : Text) : Starts (.ndsctlDeauth arg)
  | refresh (input : RefreshInput) : Starts (.refresh input)

end WifiCat
