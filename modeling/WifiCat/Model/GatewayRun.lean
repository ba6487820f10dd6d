import WifiCat.Model.HttpdThread
import WifiCat.Model.NdsctlThread

/-!
# The daemon on what arrives

Once the firewall is up, `main_loop` gives each connection to the web server a thread, the thread
of the control socket does the same with its connections, and a third one looks after the clients
from time to time.  `serveEvent` is one of these, from the bytes that arrive to the state that is
left; `gatewayRun` is a start of the daemon and any number of them, one after the other.
-/

set_option autoImplicit false

namespace WifiCat

open Scan CommandProgram

/-- What the running daemon meets: a connection to the web server, one to the control socket, of
which the memory behind the buffer, the bytes and their end are given and the loop that reads has
so many rounds, or the time to look after the clients. -/
inductive GatewayEvent
  | web (moment : HttpdMoment) (connection : HttpdConnection)
  | control (moment : Moment) (beyond : Text) (ending : StreamEnd) (chunks : List Text) (fuel : ℕ)
  | timer (input : RefreshInput)

/-- The daemon after an event; a control connection whose loop has not ended changes nothing yet.
SOURCE: gateway.c:281-370, httpd_thread.c:53-93, ndsctl_thread.c:154-238, firewall.c:118-147 -/
def serveEvent (server : HttpdServer) (w : World) : GatewayEvent → Program World
  | .web moment connection => Prod.snd <$> threadHttpd server moment connection w
  | .control moment beyond ending chunks fuel =>
    match threadNdsctlHandler beyond ending chunks fuel with
    | none => pure w
    | some call => serveCall moment call w
  | .timer input => fwRefreshClientList input w

/-- The daemon after events, one after the other. -/
def serveEvents (server : HttpdServer) (events : List GatewayEvent) (w : World) : Program World :=
  events.foldlM (serveEvent server) w

/-- A run of the daemon; a start that fails ends it.
SOURCE: gateway.c:281-370, 399 -/
def gatewayRun (server : HttpdServer) (config : Config) (events : List GatewayEvent) :
    Program (Option World) := do
  let start ← startDaemon config
  if start.1 ≠ 0 then pure none else some <$> serveEvents server events start.2

end WifiCat
