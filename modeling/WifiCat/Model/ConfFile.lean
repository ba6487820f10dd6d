import WifiCat.Library.TextLines
import WifiCat.Model.FirstContact

/-!
# The configuration file

`config_read` and the parsers it calls.  A line is read into a buffer of `MAX_BUF` bytes and
cut up in place: what a `NUL` ends is a text, and what stands in the buffer behind that `NUL`
is kept apart, because `parse_empty_ruleset_policy` may step over it.  `exit` is `none`.

The options are grouped by the type of the field they set; the fields are functions of them.
-/

set_option autoImplicit false

namespace WifiCat

open Scan

/-! ## Options -/

/-- The options that keep their argument as a text.
SOURCE: conf.c:160-222, 1069-1345 -/
inductive TextOption
  | externalInterface | gatewayName | gatewayInterface | gatewayIPRange | gatewayAddress
  | remoteAuthenticatorAction | binVoucher | username | password | webRoot | splashPage
  | imagesDir | pagesDir | redirectURL | ndsctlSocket | authServer | authPath | configPath
  | netTrafficPath
deriving DecidableEq, Repr

/-- The options that `sscanf` reads a decimal number of.
SOURCE: conf.c:160-222, 1069-1345 -/
inductive NumberOption
  | maxClients | gatewayPort | passwordAttempts | clientIdleTimeout | clientForceTimeout
  | mssValue | downloadLimit | uploadLimit | downloadIMQ | uploadIMQ | syslogFacility
  | httpdThreadThreshold | httpdThreadDelayMS | authPort | uid
deriving DecidableEq, Repr

/-- The options that `parse_boolean_value` reads.
SOURCE: conf.c:160-222, 1069-1345 -/
inductive BooleanOption
  | enablePreAuth | forceVoucher | passwordAuthentication | usernameAuthentication
  | authenticateImmediately | setMSS | trafficControl | decongestHttpdThreads
deriving DecidableEq, Repr

/-- The three marks.
SOURCE: conf.c:204-206 -/
inductive MarkName
  | authenticated | trusted | blocked
deriving DecidableEq, Repr

/-- What a keyword stands for.  `unread` are the options that have a keyword but no case in
`config_read`.
SOURCE: conf.c:90-153 -/
inductive OpCode
  | daemon
  | text (o : TextOption)
  | number (o : NumberOption)
  | boolean (o : BooleanOption)
  | fwMark (m : MarkName)
  | macList (l : MacListName)
  | macMechanism
  | emptyRuleSetPolicy
  | firewallRuleSet
  | firewallRule
  | unread
  | badOption
deriving DecidableEq, Repr

/-- The keywords.
SOURCE: conf.c:157-225 -/
def keywords : List (String × OpCode) :=
  [("daemon", .daemon),
    ("debuglevel", .unread),
    ("maxclients", .number .maxClients),
    ("externalinterface", .text .externalInterface),
    ("gatewayname", .text .gatewayName),
    ("gatewayinterface", .text .gatewayInterface),
    ("gatewayiprange", .text .gatewayIPRange),
    ("gatewayaddress", .text .gatewayAddress),
    ("gatewayport", .number .gatewayPort),
    ("remoteauthenticatoraction", .text .remoteAuthenticatorAction),
    ("enablepreauth", .boolean .enablePreAuth),
    ("binvoucher", .text .binVoucher),
    ("forcevoucher", .boolean .forceVoucher),
    ("passwordauthentication", .boolean .passwordAuthentication),
    ("usernameauthentication", .boolean .usernameAuthentication),
    ("passwordattempts", .number .passwordAttempts),
    ("username", .text .username),
    ("password", .text .password),
    ("webroot", .text .webRoot),
    ("splashpage", .text .splashPage),
    ("imagesdir", .text .imagesDir),
    ("pagesdir", .text .pagesDir),
    ("redirectURL", .text .redirectURL),
    ("clientidletimeout", .number .clientIdleTimeout),
    ("clientforcetimeout", .number .clientForceTimeout),
    ("checkinterval", .unread),
    ("authenticateimmediately", .boolean .authenticateImmediately),
    ("setmss", .boolean .setMSS),
    ("mssvalue", .number .mssValue),
    ("trafficcontrol", .boolean .trafficControl),
    ("downloadlimit", .number .downloadLimit),
    ("uploadlimit", .number .uploadLimit),
    ("downloadimq", .number .downloadIMQ),
    ("uploadimq", .number .uploadIMQ),
    ("syslogfacility", .number .syslogFacility),
    ("syslogfacility", .number .syslogFacility),
    ("ndsctlsocket", .text .ndsctlSocket),
    ("decongesthttpdthreads", .boolean .decongestHttpdThreads),
    ("httpdthreadthreshold", .number .httpdThreadThreshold),
    ("httpdthreaddelayms", .number .httpdThreadDelayMS),
    ("firewallruleset", .firewallRuleSet),
    ("firewallrule", .firewallRule),
    ("emptyrulesetpolicy", .emptyRuleSetPolicy),
    ("trustedmaclist", .macList .trusted),
    ("blockedmaclist", .macList .blocked),
    ("allowedmaclist", .macList .allowed),
    ("MACmechanism", .macMechanism),
    ("FW_MARK_AUTHENTICATED", .fwMark .authenticated),
    ("FW_MARK_TRUSTED", .fwMark .trusted),
    ("FW_MARK_BLOCKED", .fwMark .blocked),
    ("authserver", .text .authServer),
    ("authport", .number .authPort),
    ("authpath", .text .authPath),
    ("configpath", .text .configPath),
    ("nettrafficpath", .text .netTrafficPath),
    ("tokenverifypath", .unread),
    ("freeiplist", .unread),
    ("freedomainlist", .unread),
    ("uid", .number .uid)]

/-- `config_parse_opcode`.
SOURCE: conf.c:344-357 -/
def configParseOpcode (cp : Text) : OpCode :=
  ((keywords.find? fun k => sameCase cp k.1.toList).map Prod.snd).getD .badOption

/-! ## The configuration -/

/-- SOURCE: conf.h:58-100, conf.c:255-315 -/
def initText : TextOption → Option Text
  | .externalInterface => none
  | .gatewayName => some "wificat".toList
  | .gatewayInterface => none
  | .gatewayIPRange => some "0.0.0.0/0".toList
  | .gatewayAddress => none
  | .remoteAuthenticatorAction => some "yes".toList
  | .binVoucher => none
  | .username => none
  | .password => none
  | .webRoot => some "/etc/wificat/htdocs".toList
  | .splashPage => some "wificat.html".toList
  | .imagesDir => some "images".toList
  | .pagesDir => some "pages".toList
  | .redirectURL => none
  | .ndsctlSocket => some "/tmp/ndsctl.sock".toList
  | .authServer => some "manage.yiroy.com".toList
  | .authPath => some "/wificat/auth/".toList
  | .configPath => some "/wificat/config/".toList
  | .netTrafficPath => some "/wificat/nettraffic/".toList

/-- SOURCE: conf.h:51-90, conf.c:257-315 -/
def initNumber : NumberOption → ℤ
  | .maxClients => 20
  | .gatewayPort => 2050
  | .passwordAttempts => 5
  | .clientIdleTimeout => 10
  | .clientForceTimeout => 360
  | .mssValue => 0
  | .downloadLimit => 0
  | .uploadLimit => 0
  | .downloadIMQ => 0
  | .uploadIMQ => 1
  | .syslogFacility => 24
  | .httpdThreadThreshold => 3
  | .httpdThreadDelayMS => 200
  | .authPort => 80
  | .uid => 0

/-- SOURCE: conf.h:69-88, conf.c:279-297 -/
def initBoolean : BooleanOption → Bool
  | .enablePreAuth => false
  | .forceVoucher => false
  | .passwordAuthentication => false
  | .usernameAuthentication => false
  | .authenticateImmediately => false
  | .setMSS => true
  | .trafficControl => false
  | .decongestHttpdThreads => false

/-- SOURCE: conf.h:83-85, conf.c:304-306 -/
def initMark : MarkName → BitVec 32
  | .authenticated => 0x400
  | .trusted => 0x200
  | .blocked => 0x100

/-- The fields of `s_config` that the file sets, with `config_init`'s defaults.
SOURCE: conf.h:166-239, conf.c:247-331 -/
structure FileConfig where
  daemon : ℤ := -1
  text : TextOption → Option Text := initText
  number : NumberOption → ℤ := initNumber
  boolean : BooleanOption → Bool := initBoolean
  mark : MarkName → BitVec 32 := initMark
  macmechanism : MacMechanism := .block
  maclist : MacListName → List Text := fun _ => []
  emptyPolicy : RulesetName → EmptyRulesetPolicy := fun name =>
    (defaultRulesets name).emptyrulesetpolicy
  rules : RulesetName → List FirewallRule := fun _ => []

/-- The part of it that the firewall, the client list and the control thread read. -/
def FileConfig.toConfig (c : FileConfig) : Config where
  maxclients := c.number .maxClients
  gwInterface := (c.text .gatewayInterface).getD []
  gwIprange := (c.text .gatewayIPRange).getD []
  gwAddress := (c.text .gatewayAddress).getD []
  gwPort := (c.number .gatewayPort).toNat
  clienttimeout := c.number .clientIdleTimeout
  clientforceout := c.number .clientForceTimeout
  setMss := c.boolean .setMSS
  mssValue := c.number .mssValue
  trafficControl := c.boolean .trafficControl
  downloadLimit := c.number .downloadLimit
  uploadLimit := c.number .uploadLimit
  downloadImq := c.number .downloadIMQ
  uploadImq := c.number .uploadIMQ
  rulesets := fun name => { emptyrulesetpolicy := c.emptyPolicy name, rules := c.rules name }
  maclist := c.maclist
  macmechanism := c.macmechanism
  fwMarkAuthenticated := c.mark .authenticated
  fwMarkTrusted := c.mark .trusted
  fwMarkBlocked := c.mark .blocked

/-! ## Reading a line -/

/-- C's `isblank`. -/
def isBlank (c : Char) : Bool := c == ' ' || c == '\t'

/-- SOURCE: common.h:31 -/
def MAX_LINE : ℕ := 4096

/-- What one `fgets` leaves: the text it read, and what stands in memory behind the `NUL`
that it wrote. -/
structure Line where
  piece : Text
  beyond : Text
deriving DecidableEq, Repr

/-- The lines of a file; what is behind the text of a line is not determined by the file.
SOURCE: conf.c:1025, 489 -/
def fileLines (file : Text) (beyond : ℕ → Text) : List Line :=
  (TextLines.pieces MAX_LINE file).zipIdx.map fun (piece, i) => { piece, beyond := beyond i }

/-- The text before the first `#` that does not follow a backslash; `prev` is the character
before the text.
SOURCE: conf.c:710-720 -/
def uncomment : Option Char → Text → Text
  | _, [] => []
  | prev, c :: s => if c = '#' ∧ prev ≠ some '\\' then [] else c :: uncomment (some c) s

/-- A text without the white space at its end. -/
def trimRight (s : Text) : Text := (s.reverse.dropWhile isSpace).reverse

/-- `_strip_whitespace`: the text, and what stands in the buffer behind the `NUL` that ends it.
Every trailing blank was overwritten by a `NUL`.
SOURCE: conf.c:705-728 -/
def stripWhitespace (l : Line) : Text × Text :=
  let body := uncomment none (cString l.piece)
  let after := (l.piece ++ '\x00' :: l.beyond).drop (body.length + 1)
  let trimmed := body.dropWhile isSpace
  let kept := trimRight trimmed
  (kept, List.replicate (trimmed.length - kept.length) '\x00' ++ after)

/-- The first word of a line, up to a character of the class, and its argument.
SOURCE: conf.c:1038-1054, 500-516 -/
def splitOption (isEnd : Char → Bool) (s : Text) : Option (Text × Text) :=
  match s.dropWhile fun c => !isEnd c with
  | [] => none
  | _ :: arg => some (s.takeWhile fun c => !isEnd c, arg.dropWhile isBlank)

/-! ## Arguments -/

/-- `parse_boolean_value`; `none` is -1.
SOURCE: conf.c:1364-1382 -/
def parseBooleanValue (line : Text) : Option Bool :=
  if sameCase line "no".toList || sameCase line "false".toList || line == "0".toList then
    some false
  else if sameCase line "yes".toList || sameCase line "true".toList || line == "1".toList then
    some true
  else none

/-- `sscanf` with `"%d"`; a number that does not fit is cut as on a machine with a `long` of 64
bits. -/
def scanDecimal (s : Text) : Option ℤ :=
  let (minus, t) := sign (s.dropWhile isSpace)
  let ds := t.takeWhile Char.isDigit
  if ds = [] then none
  else
    let n : ℤ := Nat.ofDigitChars 10 ds 0
    some (int32 (max (-2 ^ 63) (min (2 ^ 63 - 1) (if minus then -n else n))))

/-- The digits of `%x` behind an optional `0x`. -/
def skipHexPrefix : Text → Text
  | '0' :: 'x' :: s => '0' :: s
  | '0' :: 'X' :: s => '0' :: s
  | s => s

/-- `sscanf` with `"%x"`, on the same machine. -/
def scanHex (s : Text) : Option (BitVec 32) :=
  let (minus, t) := sign (s.dropWhile isSpace)
  let ds := (skipHexPrefix t).takeWhile isHexDigit
  if ds = [] then none
  else
    let v := hexValue ds
    let r := if 2 ^ 64 ≤ v then 2 ^ 64 - 1 else if minus then (2 ^ 64 - v) % 2 ^ 64 else v
    some (BitVec.ofNat 32 r)

/-- A number as the option scans it.
SOURCE: conf.c:1088, 1326 -/
def NumberOption.scan (o : NumberOption) (arg : Text) : Option ℤ :=
  match o with
  | .gatewayPort => (unsigned arg).map fun r => (r.1.toNat : ℤ)
  | _ => scanDecimal arg

/-- A text without the slashes at its end.
SOURCE: conf.c:1133 -/
def trimSlashes (s : Text) : Text := (s.reverse.dropWhile (· == '/')).reverse

/-- The names of the rulesets.
SOURCE: conf.c:320-330 -/
def RulesetName.text : RulesetName → Text
  | .trustedUsers => "trusted-users".toList
  | .trustedUsersToRouter => "trusted-users-to-router".toList
  | .usersToRouter => "users-to-router".toList
  | .authenticatedUsers => "authenticated-users".toList
  | .preauthenticatedUsers => "preauthenticated-users".toList

/-- `get_ruleset`.
SOURCE: conf.c:680-689 -/
def getRuleset (name : Text) : Option RulesetName :=
  [.trustedUsers, .trustedUsersToRouter, .usersToRouter, .authenticatedUsers,
    .preauthenticatedUsers].find? fun r => r.text == name

/-- `parse_*_mac_list`: every field between commas, blanks and tabs that is not empty goes to
the function that adds an address.
SOURCE: conf.c:1537-1553, 1656-1669, 1771-1788 -/
def parseMacList (l : MacListName) (ptr : Text) (c : FileConfig) : FileConfig :=
  let macs := TextLines.words (fun d => d == ',' || isBlank d) ptr
  { c with
    maclist := (macs.foldl (fun config mac => (addToMacList l mac config).2) c.toConfig).maclist }

/-- The words of `emptyrulesetpolicy`.
SOURCE: conf.c:437-455 -/
def policyOfWord (policy : Text) : Option EmptyRulesetPolicy :=
  if sameCase policy "passthrough".toList then some .RETURN
  else if sameCase policy "allow".toList then some .ACCEPT
  else if sameCase policy "block".toList then some .REJECT
  else none

/-- `parse_empty_ruleset_policy`.  The pointer steps over the character that ended the name,
also when that is the `NUL` of the line.
SOURCE: conf.c:411-458 -/
def parseEmptyRulesetPolicy (ptr after : Text) (c : FileConfig) : Option FileConfig := do
  let ptr := ptr.dropWhile isBlank
  let ruleset ← getRuleset (ptr.takeWhile fun c => !isBlank c)
  let rest :=
    match ptr.dropWhile fun c => !isBlank c with
    | [] => cString after
    | _ :: rest => rest
  let policy ← policyOfWord ((rest.dropWhile isBlank).takeWhile fun c => !isBlank c)
  return { c with emptyPolicy := Function.update c.emptyPolicy ruleset policy }

/-- The mark is stored, and must be unlike zero and the other two.
SOURCE: conf.c:1279-1308 -/
def parseFwMark (m : MarkName) (arg : Text) (c : FileConfig) : Option FileConfig := do
  let v ← scanHex arg
  let mark := Function.update c.mark m v
  let others : List MarkName := [.authenticated, .trusted, .blocked].filter (· ≠ m)
  if v = 0 || others.any fun o => decide (mark o = v) then none else return { c with mark }

/-- The cases of `config_read` that read one line.
SOURCE: conf.c:1059-1352 -/
def OpCode.apply (op : OpCode) (arg after : Text) (c : FileConfig) : Option FileConfig :=
  match op with
  | .daemon =>
    match parseBooleanValue arg with
    | some value => if c.daemon = -1 then some { c with daemon := value.toNat } else some c
    | none => some c
  | .text .webRoot => some { c with text := Function.update c.text .webRoot (some (trimSlashes arg)) }
  | .text o => some { c with text := Function.update c.text o (some arg) }
  | .number .uid =>
    match scanDecimal arg with
    | some n => some { c with number := Function.update c.number .uid n }
    -- only an argument without anything to scan is refused
    | none => if arg.all isSpace then none else some c
  | .number o => (o.scan arg).map fun n => { c with number := Function.update c.number o n }
  | .boolean .enablePreAuth =>
    let value := (parseBooleanValue arg).getD (c.boolean .enablePreAuth)
    some { c with boolean := Function.update c.boolean .enablePreAuth value }
  | .boolean .forceVoucher =>
    let value := (parseBooleanValue arg).getD (c.boolean .forceVoucher)
    some { c with boolean := Function.update c.boolean .forceVoucher value }
  | .boolean o =>
    (parseBooleanValue arg).map fun v => { c with boolean := Function.update c.boolean o v }
  | .fwMark m => parseFwMark m arg c
  | .macList l => some (parseMacList l arg c)
  | .macMechanism =>
    if sameCase "allow".toList arg then some { c with macmechanism := .allow }
    else if sameCase "block".toList arg then some { c with macmechanism := .block }
    else none
  | .emptyRuleSetPolicy => parseEmptyRulesetPolicy arg after c
  | .firewallRuleSet => some c
  | .firewallRule => some c
  | .unread => some c
  | .badOption => none

/-! ## Firewall rules -/

/-- `TO_NEXT_WORD`: the word, what follows it, and whether the end of the text was reached.
SOURCE: conf.c:369-381 -/
def toNextWord (s : Text) : Text × Text × Bool :=
  let word := s.takeWhile fun c => !isBlank c
  match s.dropWhile fun c => !isBlank c with
  | [] => (word, [], true)
  | _ :: t => (word, t.dropWhile isBlank, false)

/-- The target of a rule.
SOURCE: conf.c:560-574 -/
def targetOfWord (token : Text) : Option FirewallTarget :=
  if token = "block".toList then some .reject
  else if token = "drop".toList then some .drop
  else if token = "allow".toList then some .accept
  else if token = "log".toList then some .log
  else if token = "ulog".toList then some .ulog
  else none

/-- SOURCE: conf.c:582-585 -/
def startsProtocol (s : Text) : Bool :=
  "tcp".toList.isPrefixOf s || "udp".toList.isPrefixOf s || "all".toList.isPrefixOf s ||
    "icmp".toList.isPrefixOf s

/-- SOURCE: conf.c:593-594 -/
def hasPorts (protocol : Text) : Bool :=
  "tcp".toList.isPrefixOf protocol || "udp".toList.isPrefixOf protocol

/-- SOURCE: conf.c:602-608 -/
def isPort (port : Text) : Bool := port.all fun c => c.isDigit || c == ':'

/-- SOURCE: conf.c:628-635 -/
def isMask (mask : Text) : Bool := mask.all fun c => c.isDigit || c == '.' || c == '/'

/-- The optional protocol.
SOURCE: conf.c:581-588 -/
def parseProtocol (leftover : Text) (finished : Bool) : Option Text × Text × Bool :=
  if startsProtocol leftover then
    let (word, leftover, ended) := toNextWord leftover
    (some word, leftover, finished || ended)
  else (none, leftover, finished)

/-- The optional port or port range.
SOURCE: conf.c:591-613 -/
def parsePort (protocol : Option Text) (leftover : Text) (finished : Bool) :
    Except ℤ (Option Text × Text × Bool) :=
  if "port".toList.isPrefixOf leftover then
    if !(protocol.any hasPorts) then throw (-3)
    else
      let (_, leftover, ended) := toNextWord leftover
      let (port, leftover, ended') := toNextWord leftover
      if isPort port then pure (some port, leftover, finished || ended || ended') else throw (-3)
  else pure (none, leftover, finished)

/-- The optional address and mask.
SOURCE: conf.c:616-640, 650-653 -/
def parseMask (leftover : Text) (finished : Bool) : Except ℤ Text :=
  if finished then pure "0.0.0.0/0".toList
  else
    let (otherKw, leftover, finished) := toNextWord leftover
    if otherKw ≠ "to".toList ∨ finished then throw (-4)
    else
      let (mask, _, _) := toNextWord leftover
      if isMask mask then pure mask else throw (-5)

/-- `_parse_firewall_rule`: the rule that is appended, or the error that is returned.
SOURCE: conf.c:539-662 -/
def parseFirewallRule (leftover : Text) : Except ℤ FirewallRule := do
  let (token, leftover, finished) := toNextWord (leftover.map Char.toLower)
  let target ← (targetOfWord token).elim (throw (-1)) pure
  let (protocol, leftover, finished) := parseProtocol leftover finished
  let (port, leftover, finished) ← parsePort protocol leftover finished
  let mask ← parseMask leftover finished
  return { target, protocol, port, mask := some mask }

/-- The rule record goes to the end of the ruleset; the caller does not look at an error.
SOURCE: conf.c:521-523, 637-660 -/
def addFirewallRule (name : RulesetName) (leftover : Text) (c : FileConfig) : FileConfig :=
  match parseFirewallRule leftover with
  | .ok rule => { c with rules := Function.update c.rules name (c.rules name ++ [rule]) }
  | .error _ => c

/-! ## The two loops -/

/-- The loop of `parse_firewall_ruleset`: the lines it leaves unread, and the configuration.
SOURCE: conf.c:488-533 -/
def rulesetLoop (name : RulesetName) : List Line → FileConfig → Option (List Line × FileConfig)
  | [], c => some ([], c)
  | l :: ls, c =>
    let s := (stripWhitespace l).1
    if s = [] then rulesetLoop name ls c
    else if s.head? = some '}' then some (ls, c)
    else
      match splitOption isBlank s with
      | none => none
      | some (option, arg) =>
        match configParseOpcode option with
        | .firewallRule => rulesetLoop name ls (addFirewallRule name arg c)
        | _ => none

/-- `parse_firewall_ruleset`.
SOURCE: conf.c:465-534 -/
def parseFirewallRuleset (arg : Text) (ls : List Line) (c : FileConfig) :
    Option (List Line × FileConfig) := do
  let name ← getRuleset (arg.takeWhile fun c => !isBlank c)
  rulesetLoop name ls c

/-- The loop of `config_read`; every round takes at least one line.
SOURCE: conf.c:1025-1354 -/
def configReadLoop : ℕ → List Line → FileConfig → Option FileConfig
  | 0, _, c => some c
  | _, [], c => some c
  | fuel + 1, l :: ls, c =>
    let (s, after) := stripWhitespace l
    if s = [] then configReadLoop fuel ls c
    else
      match splitOption isSpace s with
      | none => none
      | some (option, arg) =>
        match configParseOpcode option with
        | .firewallRuleSet => do
          let (ls, c) ← parseFirewallRuleset arg ls c
          configReadLoop fuel ls c
        | op => do
          let c ← op.apply arg after c
          configReadLoop fuel ls c

/-- `config_read`, on the content of the file.
SOURCE: conf.c:1010-1359 -/
def configRead (file : Text) (beyond : ℕ → Text) (c : FileConfig) : Option FileConfig :=
  let ls := fileLines file beyond
  configReadLoop ls.length ls c

/-- The defaults are those of the configuration record. -/
theorem toConfig_default : FileConfig.toConfig {} = {} := by
  have hrulesets : (FileConfig.toConfig {}).rulesets = defaultRulesets := by
    funext name
    cases name <;> rfl
  calc FileConfig.toConfig {} = { ({} : Config) with rulesets := (FileConfig.toConfig {}).rulesets } := rfl
    _ = {} := by rw [hrulesets]

end WifiCat
