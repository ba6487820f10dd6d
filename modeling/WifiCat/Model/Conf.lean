import WifiCat.Library.Scan
import Mathlib.Logic.Function.Basic

/-!
# The configuration

The part of `s_config` the firewall, the client list and the control thread read, with
the values `config_init` gives it, and the functions of `conf.c` that check and edit
its address lists: `check_ip_format`, `check_mac_format`, the `add_to_*` and
`remove_from_*` functions and `free_ip_init`.

C strings are texts without their NUL.  A linked list is a Lean list whose head is the
list's first node.  The five rulesets `config_init` creates are never removed and no
other is ever added, so they are a function of their name; `macmechanism` is only ever
assigned `MAC_ALLOW` or `MAC_BLOCK`.
-/

set_option autoImplicit false

namespace WifiCat

open Scan

/-! ## Firewall rules and rulesets -/

/-- Firewall targets.
SOURCE: conf.h:125-131 -/
inductive FirewallTarget
  | drop | reject | accept | log | ulog
deriving DecidableEq, Repr

/-- A rule of a ruleset; a text that is `NULL` in the source is `none`.
SOURCE: conf.h:136-142 -/
structure FirewallRule where
  target : FirewallTarget
  protocol : Option Text := none
  port : Option Text := none
  mask : Option Text := none
deriving DecidableEq, Repr

/-- What to do with the packets of an empty ruleset.
SOURCE: conf.h:91-93, conf.c:439-455 -/
inductive EmptyRulesetPolicy
  | ACCEPT | REJECT | RETURN
deriving DecidableEq, Repr

/-- The five rulesets.
SOURCE: conf.c:320-330 -/
inductive RulesetName
  | trustedUsers | trustedUsersToRouter | usersToRouter | authenticatedUsers
  | preauthenticatedUsers
deriving DecidableEq, Repr

/-- A ruleset: its rules in order, and its policy when it has none.
SOURCE: conf.h:147-152 -/
structure FirewallRuleset where
  emptyrulesetpolicy : EmptyRulesetPolicy
  rules : List FirewallRule := []
deriving DecidableEq, Repr

/-- The rulesets as `config_init` leaves them.
SOURCE: conf.h:94-98, conf.c:320-330 -/
def defaultRulesets : RulesetName → FirewallRuleset
  | .trustedUsers => { emptyrulesetpolicy := .ACCEPT }
  | .trustedUsersToRouter => { emptyrulesetpolicy := .ACCEPT }
  | .usersToRouter => { emptyrulesetpolicy := .REJECT }
  | .authenticatedUsers => { emptyrulesetpolicy := .RETURN }
  | .preauthenticatedUsers => { emptyrulesetpolicy := .REJECT }

/-! ## The configuration record -/

/-- The mechanism that says which MAC addresses are blocked.
SOURCE: conf.h:41-42 -/
inductive MacMechanism
  | allow | block
deriving DecidableEq, Repr

/-- The three MAC lists.
SOURCE: conf.h:240-242 -/
inductive MacListName
  | trusted | blocked | allowed
deriving DecidableEq, Repr

/-- The configuration, with `config_init`'s defaults.
SOURCE: conf.h:176-266, conf.c:249-331 -/
structure Config where
  maxclients : ℤ := 20
  gwInterface : Text := []
  gwIprange : Text := "0.0.0.0/0".toList
  gwAddress : Text := []
  gwPort : ℕ := 2050
  clienttimeout : ℤ := 10
  clientforceout : ℤ := 360
  checkinterval : ℤ := 60
  setMss : Bool := true
  mssValue : ℤ := 0
  trafficControl : Bool := false
  downloadLimit : ℤ := 0
  uploadLimit : ℤ := 0
  downloadImq : ℤ := 0
  uploadImq : ℤ := 1
  rulesets : RulesetName → FirewallRuleset := defaultRulesets
  maclist : MacListName → List Text := fun _ => []
  macmechanism : MacMechanism := .block
  fwMarkAuthenticated : BitVec 32 := 0x400
  fwMarkTrusted : BitVec 32 := 0x200
  fwMarkBlocked : BitVec 32 := 0x100
  freeIpList : List Text := []

/-! ## Format checks -/

/-- `check_ip_format`: `sscanf` with `"%u.%u.%u.%u"` reads four numbers, all below 256.
SOURCE: conf.c:1384-1390 -/
def checkIpFormat (possibleip : Text) : Bool :=
  let scanned := do
    let (a1, s) ← unsigned possibleip
    let s ← lit '.' s
    let (a2, s) ← unsigned s
    let s ← lit '.' s
    let (a3, s) ← unsigned s
    let s ← lit '.' s
    let (a4, _) ← unsigned s
    return (a1, a2, a3, a4)
  match scanned with
  | some (a1, a2, a3, a4) => a1 < 256 && a2 < 256 && a3 < 256 && a4 < 256
  | none => false

/-- `check_mac_format`: `sscanf` with six directives `%2[A-Fa-f0-9]` separated by
colons assigns all six.
SOURCE: conf.c:1443-1450 -/
def checkMacFormat (possiblemac : Text) : Bool :=
  let scanned := do
    let (_, s) ← set 2 isHexDigit possiblemac
    let s ← lit ':' s
    let (_, s) ← set 2 isHexDigit s
    let s ← lit ':' s
    let (_, s) ← set 2 isHexDigit s
    let s ← lit ':' s
    let (_, s) ← set 2 isHexDigit s
    let s ← lit ':' s
    let (_, s) ← set 2 isHexDigit s
    let s ← lit ':' s
    set 2 isHexDigit s
  scanned.isSome

/-- A character of `%17[A-Fa-f0-9:]`. -/
def isMacChar (c : Char) : Bool := isHexDigit c || c == ':'

/-- The copy the list functions make of a MAC address that passed the check,
`sscanf(possiblemac, "%17[A-Fa-f0-9:]", mac)`.
SOURCE: conf.c:1465, 1505, 1579, 1624, 1695, 1740 -/
def macCopy (possiblemac : Text) : Text := (possiblemac.take 17).takeWhile isMacChar

/-! ## The MAC lists -/

/-- The mechanism a list belongs to, if any: its functions abort under the other one.
SOURCE: conf.c:1572, 1617, 1688, 1733 -/
def MacListName.mechanism : MacListName → Option MacMechanism
  | .trusted => none
  | .blocked => some .block
  | .allowed => some .allow

/-- The mechanism in force lets the list be used. -/
def Config.usesList (config : Config) (l : MacListName) : Bool :=
  match l.mechanism with
  | none => true
  | some m => decide (m = config.macmechanism)

/-- Replace one MAC list. -/
def Config.setMaclist (config : Config) (l : MacListName) (macs : List Text) : Config :=
  { config with maclist := Function.update config.maclist l macs }

/-- The common body of the three `add_to_*_mac_list` functions: 0 when the address was
added, nonzero otherwise.
SOURCE: conf.c:1452-1484, 1560-1598, 1676-1714 -/
def addToMacList (l : MacListName) (possiblemac : Text) (config : Config) : ℤ × Config :=
  if !checkMacFormat possiblemac then (-1, config)
  -- the trusted list has no mechanism to check
  else if !config.usesList l then (-1, config)
  else
    let mac := macCopy possiblemac
    if (config.maclist l).any (sameCase · mac) then (1, config)
    else (0, config.setMaclist l (mac :: config.maclist l))

/-- The common body of the three `remove_from_*_mac_list` functions: 0 when the address
was found and removed.
SOURCE: conf.c:1490-1531, 1604-1650, 1720-1766 -/
def removeFromMacList (l : MacListName) (possiblemac : Text) (config : Config) : ℤ × Config :=
  if !checkMacFormat possiblemac then (-1, config)
  else if !config.usesList l then (-1, config)
  else
    let mac := macCopy possiblemac
    -- an empty list is the case of a list without the address
    if (config.maclist l).any (sameCase · mac) then
      (0, config.setMaclist l ((config.maclist l).eraseP (sameCase · mac)))
    else (-1, config)

/-- SOURCE: conf.c:1452-1484 -/
def addToTrustedMacList : Text → Config → ℤ × Config := addToMacList .trusted
/-- SOURCE: conf.c:1490-1531 -/
def removeFromTrustedMacList : Text → Config → ℤ × Config := removeFromMacList .trusted
/-- SOURCE: conf.c:1560-1598 -/
def addToBlockedMacList : Text → Config → ℤ × Config := addToMacList .blocked
/-- SOURCE: conf.c:1604-1650 -/
def removeFromBlockedMacList : Text → Config → ℤ × Config := removeFromMacList .blocked
/-- SOURCE: conf.c:1676-1714 -/
def addToAllowedMacList : Text → Config → ℤ × Config := addToMacList .allowed
/-- SOURCE: conf.c:1720-1766 -/
def removeFromAllowedMacList : Text → Config → ℤ × Config := removeFromMacList .allowed

/-! ## The free-IP list -/

/-- `add_to_free_ip_list`: the copy kept is the first fifteen characters.
SOURCE: conf.c:1394-1421 -/
def addToFreeIpList (possibleip : Text) (config : Config) : ℤ × Config :=
  if !checkIpFormat possibleip then (-1, config)
  else
    let ip := possibleip.take 15
    if ip ∈ config.freeIpList then (1, config)
    else (0, { config with freeIpList := ip :: config.freeIpList })

/-- An octet may be written as a number. -/
instance octetNeZero : NeZero 256 := ⟨by decide⟩

/-- An IPv4 address as the resolver answers it: its four octets in order. -/
abbrev InAddr := Fin 256 × Fin 256 × Fin 256 × Fin 256

/-- `inet_ntoa`: the dotted quad of an address. -/
def inetNtoa (a : InAddr) : Text :=
  Nat.toDigits 10 a.1 ++ '.' :: Nat.toDigits 10 a.2.1 ++ '.' :: Nat.toDigits 10 a.2.2.1 ++
    '.' :: Nat.toDigits 10 a.2.2.2

/-- `add_to_free_domain_list`: `he` is what `gethostbyname` answered.
SOURCE: conf.c:1423-1439 -/
def addToFreeDomainList (he : Option (List InAddr)) (config : Config) : ℤ × Config :=
  match he with
  | none => (0, config)
  | some addrs =>
    (addrs.length, addrs.foldl (fun config a => (addToFreeIpList (inetNtoa a) config).2) config)

/-- The rule `free_ip_init` makes of a free IP address.
SOURCE: conf.c:774-779 -/
def freeIpRule (ip : Text) : FirewallRule :=
  { target := .accept, protocol := some "tcp".toList, mask := some ip }

/-- Replace the rules of one ruleset. -/
def Config.setRules (config : Config) (name : RulesetName) (rules : List FirewallRule) :
    Config :=
  { config with
    rulesets := Function.update config.rulesets name
      { config.rulesets name with rules := rules } }

/-- `free_ip_init`: a rule for every free IP address, each put at the head of the
preauthenticated-users ruleset.
SOURCE: conf.c:734-784 -/
def freeIpInit (config : Config) : Config :=
  config.freeIpList.foldl
    (fun config ip => config.setRules .preauthenticatedUsers
      (freeIpRule ip :: (config.rulesets .preauthenticatedUsers).rules)) config

/-- `get_ruleset_list`.
SOURCE: conf.c:691-699 -/
def getRulesetList (config : Config) (name : RulesetName) : List FirewallRule :=
  (config.rulesets name).rules

/-- `is_empty_ruleset`.
SOURCE: conf.c:664-668 -/
def isEmptyRuleset (config : Config) (name : RulesetName) : Bool :=
  (getRulesetList config name).isEmpty

/-- `get_empty_ruleset_policy`.
SOURCE: conf.c:670-677 -/
def getEmptyRulesetPolicy (config : Config) (name : RulesetName) : EmptyRulesetPolicy :=
  (config.rulesets name).emptyrulesetpolicy

end WifiCat
