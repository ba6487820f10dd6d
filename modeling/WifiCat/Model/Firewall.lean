import WifiCat.Model.FwIptables

/-!
# Clients and the firewall together

`arp_get` and `fw_refresh_client_list` of `firewall.c`, `iptables_fw_counters_update`
and `auth_client_action`: what reads the clients' addresses and traffic from the machine
and opens or closes the firewall for them.  Both work on a `World`, the state of the
daemon between two lock sections.
-/

set_option autoImplicit false

namespace WifiCat

open Scan CommandProgram

/-- The state of the daemon. -/
structure World where
  config : Config
  fw : Firewall
  clients : ClientList
  authenticatedSinceStart : ℤ := 0

/-! ## arp_get -/

/-- A character of `%15[0-9.]`. -/
def isIpChar (c : Char) : Bool := c.isDigit || c == '.'

/-- `%*s`: what is left behind a word. -/
def skipWord (s : Text) : Option Text :=
  match s.dropWhile isSpace with
  | [] => none
  | t => some (t.dropWhile fun c => !isSpace c)

/-- One entry of the ARP table, `" %15[0-9.] %*s %*s %17[A-Fa-f0-9:] %*s %*s"`: the two
texts, and what is left.
SOURCE: firewall.c:108 -/
def arpEntry (s : Text) : Option ((Text × Text) × Text) := do
  let (ip, s) ← set 15 isIpChar (s.dropWhile isSpace)
  let s ← skipWord s
  let s ← skipWord s
  let (mac, s) ← set 17 isMacChar (s.dropWhile isSpace)
  -- both texts are assigned by now: the file may end here
  let s := (skipWord s).getD []
  let s := (skipWord s).getD []
  return ((ip, mac), s)

/-- The loop of `arp_get`; an entry takes at least one character of the table.
SOURCE: firewall.c:107-113 -/
def arpScan (reqIp : Text) : ℕ → Text → Option Text
  | 0, _ => none
  | n + 1, s =>
    match arpEntry s with
    | none => none
    | some ((ip, mac), rest) => if ip = reqIp then some mac else arpScan reqIp n rest

/-- `arp_get`, on the content of `/proc/net/arp`, whose first line is a heading.
SOURCE: firewall.c:91-118 -/
def arpGet (arpTable reqIp : Text) : Option Text :=
  arpScan reqIp arpTable.length ((arpTable.dropWhile (· != '\n')).drop 1)

/-! ## iptables_fw_counters_update -/

/-- A line of a chain's listing from which `fscanf` assigned all three variables. -/
structure CounterLine where
  counter : BitVec 64
  target : Text
  ip : Text

/-- One part of an address for `inet_aton`: decimal, or octal with a leading zero. -/
def inetAtonPart (w : Text) : Option ℕ :=
  match w with
  | [] => none
  | '0' :: ds => if ds.all (fun c => '0' ≤ c && c ≤ '7') then some (Nat.ofDigitChars 8 ds 0) else none
  | ds => if ds.all Char.isDigit then some (Nat.ofDigitChars 10 ds 0) else none

/-- `inet_aton` accepts the text: one to four parts, the last of which fills the rest of
the 32 bits. -/
def inetAton (ip : Text) : Bool :=
  match (fields '.' ip).mapM inetAtonPart with
  | none => false
  | some parts =>
    parts.length ≤ 4 && parts.dropLast.all (· < 256) &&
      parts.getLastD 0 < 256 ^ (5 - parts.length)

/-- Change the node at an address. -/
def ClientList.modify (cl : ClientList) (a : ℕ) (f : Client → Client) : ClientList :=
  { cl with firstclient := cl.firstclient.map fun c => if c.addr = a then f c else c }

/-- SOURCE: fw_iptables.c:909-926 -/
def updateOutgoing (now : ℤ) (line : CounterLine) (cl : ClientList) : ClientList :=
  if line.target = "MARK".toList && inetAton line.ip then
    match clientListFindByIp line.ip cl with
    | none => cl
    | some p1 =>
      if p1.counters.outgoing - p1.counters.outgoingHistory < line.counter then
        cl.modify p1.addr fun c =>
          { c with counters := { c.counters with
            outgoing := c.counters.outgoingHistory + line.counter
            lastUpdated := now } }
      else cl
  else cl

/-- SOURCE: fw_iptables.c:948-964 -/
def updateIncoming (line : CounterLine) (cl : ClientList) : ClientList :=
  if line.target = "ACCEPT".toList && inetAton line.ip then
    match clientListFindByIp line.ip cl with
    | none => cl
    | some p1 =>
      if p1.counters.incoming - p1.counters.incomingHistory < line.counter then
        cl.modify p1.addr fun c =>
          { c with counters := { c.counters with
            incoming := c.counters.incomingHistory + line.counter } }
      else cl
  else cl

/-- What one call of `fw_refresh_client_list` takes from outside the program: the lines
of the two listings (`none` when `popen` fails), the clock when a line is read and when
a client is looked at. -/
structure RefreshInput where
  outgoing : Option (List CounterLine)
  incoming : Option (List CounterLine)
  readAt : ℕ → ℤ
  now : ℕ → ℤ

/-- `iptables_fw_counters_update`: whether it succeeded, and the clients.
SOURCE: fw_iptables.c:880-970 -/
def iptablesFwCountersUpdate (input : RefreshInput) (cl : ClientList) : Bool × ClientList :=
  match input.outgoing with
  | none => (false, cl)
  | some lines =>
    let cl := lines.zipIdx.foldl (fun cl l => updateOutgoing (input.readAt l.2) l.1 cl) cl
    match input.incoming with
    | none => (false, cl)
    | some lines => (true, lines.foldl (fun cl l => updateIncoming l cl) cl)

/-! ## Opening and closing the firewall -/

/-- Take a listed client's rules out of the firewall, if it has any, and the client off
the list.
SOURCE: auth.c:121-126, firewall.c:174-177, 184-187 -/
def removeClient (client : Client) (w : World) : Program World := do
  let fw ← (if client.fwConnectionState = w.fw.fwMarkAuthenticated then
      Prod.snd <$> iptablesFwAccess w.config w.fw .makeDeauthenticated client
    else pure w.fw)
  pure { w with fw := fw, clients := clientListDelete (some client.addr) w.clients }

/-- `auth_client_action`.
SOURCE: auth.c:91-134 -/
def authClientAction (ip mac : Text) (action : AuthAction) (w : World) : Program World :=
  match clientListFind ip mac w.clients with
  | none => pure w
  | some client =>
    match action with
    | .makeAuthenticated =>
      if client.fwConnectionState ≠ w.fw.fwMarkAuthenticated then do
        let authenticated (c : Client) : Client :=
          { c with fwConnectionState := w.fw.fwMarkAuthenticated }
        let access ←
          iptablesFwAccess w.config w.fw .makeAuthenticated (authenticated client)
        pure { w with
          fw := access.2
          clients := w.clients.modify client.addr authenticated
          authenticatedSinceStart := w.authenticatedSinceStart + 1 }
      else pure w
    | .makeDeauthenticated => removeClient client w

/-- One round of the loop of `fw_refresh_client_list`: a client that was idle or
connected for too long is removed.
SOURCE: firewall.c:161-193 -/
def refreshClient (now : ℤ) (node : Client) (w : World) : Program World :=
  match clientListFind node.ip node.mac w.clients with
  | none => pure w
  | some cp1 =>
    if cp1.counters.lastUpdated + int32 (w.config.checkinterval * w.config.clienttimeout) ≤ now
    then removeClient cp1 w
    else if cp1.addedTime + int32 (w.config.checkinterval * w.config.clientforceout) ≤ now
    then removeClient cp1 w
    else pure w

/-- `fw_refresh_client_list`: the loop reads the next node before it may free this one.
SOURCE: firewall.c:143-199 -/
def fwRefreshClientList (input : RefreshInput) (w : World) : Program World :=
  let counters := iptablesFwCountersUpdate input w.clients
  let w := { w with clients := counters.2 }
  if !counters.1 then pure w
  else w.clients.firstclient.zipIdx.foldlM (fun w n => refreshClient (input.now n.2) n.1 w) w

end WifiCat
