import WifiCat.Model.Firewall

/-!
# The daemon

What reaches the daemon from outside once the firewall is up: a web client, a control
command (`ndsctl_thread.c`), the timer.  `serve` handles one request and `session` any
number of them; `startDaemon` is the start: an empty client list and
`iptables_fw_init`.  `serverConfig` is what a document of the configuration server does
to the address lists before that.
-/

set_option autoImplicit false

namespace WifiCat

open Scan CommandProgram

/-! ## ndsctl -/

/-- The answer a control command writes back. -/
inductive Reply
  | Yes | No
deriving DecidableEq, Repr

/-- The six control commands on MAC addresses. -/
inductive MacRequest
  | block | unblock | allow | unallow | trust | untrust
deriving DecidableEq, Repr

/-- The common body of the six: the list first, then the firewall.
SOURCE: ndsctl_thread.c:346-458 -/
def ndsctlMac (listOp : Text → Config → ℤ × Config) (command : Text → IptablesCommand)
    (fwQuiet : Bool) (arg : Text) (config : Config) : Program (Reply × Config) :=
  let list := listOp arg config
  if list.1 = 0 then do
    let rc ← iptablesDoCommand fwQuiet (command arg)
    pure (if rc = 0 then .Yes else .No, list.2)
  else pure (.No, list.2)

/-- SOURCE: ndsctl_thread.c:346-363 -/
def ndsctlBlock (fw : Firewall) : Text → Config → Program (Reply × Config) :=
  ndsctlMac addToBlockedMacList (iptablesBlockMac fw) fw.fwQuiet
/-- SOURCE: ndsctl_thread.c:365-382 -/
def ndsctlUnblock (fw : Firewall) : Text → Config → Program (Reply × Config) :=
  ndsctlMac removeFromBlockedMacList (iptablesUnblockMac fw) fw.fwQuiet
/-- SOURCE: ndsctl_thread.c:384-401 -/
def ndsctlAllow (fw : Firewall) : Text → Config → Program (Reply × Config) :=
  ndsctlMac addToAllowedMacList iptablesAllowMac fw.fwQuiet
/-- SOURCE: ndsctl_thread.c:403-420 -/
def ndsctlUnallow (fw : Firewall) : Text → Config → Program (Reply × Config) :=
  ndsctlMac removeFromAllowedMacList iptablesUnallowMac fw.fwQuiet
/-- SOURCE: ndsctl_thread.c:422-439 -/
def ndsctlTrust (fw : Firewall) : Text → Config → Program (Reply × Config) :=
  ndsctlMac addToTrustedMacList (iptablesTrustMac fw) fw.fwQuiet
/-- SOURCE: ndsctl_thread.c:441-458 -/
def ndsctlUntrust (fw : Firewall) : Text → Config → Program (Reply × Config) :=
  ndsctlMac removeFromTrustedMacList (iptablesUntrustMac fw) fw.fwQuiet

/-- One of the six commands. -/
def MacRequest.handle (fw : Firewall) : MacRequest → Text → Config → Program (Reply × Config)
  | .block => ndsctlBlock fw
  | .unblock => ndsctlUnblock fw
  | .allow => ndsctlAllow fw
  | .unallow => ndsctlUnallow fw
  | .trust => ndsctlTrust fw
  | .untrust => ndsctlUntrust fw

/-- What a call of `client_list_add_client` takes from outside: the ARP table, the random
numbers, the clock, the allocator's choice. -/
structure Moment where
  arpTable : Text
  rand16 : BitVec 16 × BitVec 16
  time : ℤ
  mallocHint : ℕ

/-- The same, with `arp_get` reading the table. -/
def Moment.arrival (m : Moment) : Arrival :=
  { arp := arpGet m.arpTable, rand16 := m.rand16, time := m.time, mallocHint := m.mallocHint }

/-- A call of `client_list_add_client` on the daemon's list. -/
def addClient (m : Moment) (ip : Text) (w : World) : Option Client × World :=
  let added := clientListAddClient w.config.maxclients m.arrival ip w.clients
  (added.1, { w with clients := added.2 })

/-- `ndsctl_auth`.
SOURCE: ndsctl_thread.c:275-307 -/
def ndsctlAuth (m : Moment) (arg : Text) (w : World) : Program (Reply × World) :=
  let added := addClient m arg w
  match added.1 with
  | none => pure (.No, added.2)
  | some client => do
    let w ← authClientAction client.ip client.mac .makeAuthenticated added.2
    pure (.Yes, w)

/-- `ndsctl_deauth`: the argument is an IP or a MAC address.
SOURCE: ndsctl_thread.c:309-344 -/
def ndsctlDeauth (arg : Text) (w : World) : Program (Reply × World) :=
  match (clientListFindByIp arg w.clients).or (clientListFindByMac arg w.clients) with
  | none => pure (.No, w)
  | some client => do
    let w ← authClientAction client.ip client.mac .makeDeauthenticated w
    pure (.Yes, w)

/-! ## Requests -/

/-- What reaches the daemon from outside. -/
inductive Request
  | addClient (m : Moment) (ip : Text)
  | authAction (ip mac : Text) (action : AuthAction)
  | refresh (input : RefreshInput)
  | ndsctlMac (request : MacRequest) (arg : Text)
  | ndsctlAuth (m : Moment) (arg : Text)
  | ndsctlDeauth (arg : Text)

/-- Handle one request. -/
def serve (w : World) : Request → Program World
  | .addClient m ip => pure (addClient m ip w).2
  | .authAction ip mac action => authClientAction ip mac action w
  | .refresh input => fwRefreshClientList input w
  | .ndsctlMac request arg => do
    let handled ← request.handle w.fw arg w.config
    pure { w with config := handled.2 }
  | .ndsctlAuth m arg => Prod.snd <$> ndsctlAuth m arg w
  | .ndsctlDeauth arg => Prod.snd <$> ndsctlDeauth arg w

/-- Handle requests, one after the other. -/
def session (requests : List Request) (w : World) : Program World := requests.foldlM serve w

/-- The start of the daemon: `client_list_init`, then `fw_init`.
SOURCE: gateway.c:399, 284 -/
def startDaemon (config : Config) : Program (BitVec 32 × World) := do
  let init ← iptablesFwInit config {}
  pure (init.1, { config := config, fw := init.2, clients := clientListInit config.maxclients })

/-- A run of the daemon; a start that fails ends it.
SOURCE: gateway.c:281-290 -/
def daemonRun (config : Config) (requests : List Request) : Program (Option World) := do
  let start ← startDaemon config
  if start.1 ≠ 0 then pure none else some <$> session requests start.2

/-! ## The configuration server -/

/-- An entry of a list of the server's document, in the order of the document. -/
inductive ServerEntry
  | freeIP (ip : Text)
  | freeDomain (answer : Option (List InAddr))
  | trustedMAC (mac : Text)
  | blockedMAC (mac : Text)
deriving Repr

/-- SOURCE: conf.c:896-1000 -/
def ServerEntry.apply (config : Config) : ServerEntry → Config
  | .freeIP ip => (addToFreeIpList ip config).2
  | .freeDomain answer => (addToFreeDomainList answer config).2
  | .trustedMAC mac => (addToTrustedMacList mac config).2
  | .blockedMAC mac => (addToBlockedMacList mac config).2

/-- The address lists after a document of the configuration server, and the rules of the
free IP addresses.
SOURCE: gateway.c:391-395 -/
def serverConfig (config : Config) (document : List ServerEntry) : Config :=
  freeIpInit (document.foldl ServerEntry.apply config)

end WifiCat
