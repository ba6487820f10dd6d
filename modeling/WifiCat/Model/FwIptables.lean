import WifiCat.Model.ClientList
import WifiCat.Model.Tc

/-!
# The firewall

`fw_iptables.c`: the chains of the portal, the commands that build them
(`iptables_fw_init`), open them for a client (`iptables_fw_access`), edit the MAC chains
and take everything down again (`iptables_fw_destroy`).

The source runs its commands one after the other and only ORs their exit statuses, so a
stretch of `rc |= iptables_do_command(…)` is a list of commands here; positions count
from zero where `iptables -I` counts from one.
-/

set_option autoImplicit false

namespace WifiCat

open Scan CommandProgram

/-! ## Chains and globals -/

/-- SOURCE: fw_iptables.h:36 -/
def CHAIN_TO_INTERNET : String := "ndsNET"
/-- SOURCE: fw_iptables.h:37 -/
def CHAIN_TO_ROUTER : String := "ndsRTR"
/-- SOURCE: fw_iptables.h:38 -/
def CHAIN_TRUSTED_TO_ROUTER : String := "ndsTRT"
/-- SOURCE: fw_iptables.h:41 -/
def CHAIN_AUTHENTICATED : String := "ndsAUT"
/-- SOURCE: fw_iptables.h:43 -/
def CHAIN_BLOCKED : String := "ndsBLK"
/-- SOURCE: fw_iptables.h:44 -/
def CHAIN_ALLOWED : String := "ndsALW"
/-- SOURCE: fw_iptables.h:45 -/
def CHAIN_TRUSTED : String := "ndsTRU"

/-- The globals of the firewall.
SOURCE: fw_iptables.c:60-72, firewall.c:77-81 -/
structure Firewall where
  fwQuiet : Bool := false
  markop : MarkOp := .setMark
  markmask : Option (BitVec 32) := none
  fwMarkAuthenticated : BitVec 32 := 0
  fwMarkTrusted : BitVec 32 := 0
  fwMarkBlocked : BitVec 32 := 0
  fwMarkMask : BitVec 32 := 0
deriving DecidableEq, Repr

/-! ## Marks -/

/-- `_iptables_init_marks`.
SOURCE: fw_iptables.c:77-113 -/
def iptablesInitMarks (fw : Firewall) : BitVec 32 × Firewall :=
  if fw.fwMarkBlocked = fw.fwMarkTrusted ∨ fw.fwMarkTrusted = fw.fwMarkAuthenticated ∨
      fw.fwMarkAuthenticated = fw.fwMarkBlocked then (-1, fw)
  else if fw.fwMarkBlocked = 0 ∨ fw.fwMarkTrusted = 0 ∨ fw.fwMarkAuthenticated = 0 then (-1, fw)
  else (0, { fw with
    fwMarkMask := fw.fwMarkBlocked ||| fw.fwMarkTrusted ||| fw.fwMarkAuthenticated })

/-- The first half of `_iptables_check_mark_masking`: try a rule that ORs a mark.
SOURCE: fw_iptables.c:119-129 -/
def checkOrMark (fw : Firewall) : Program Firewall := do
  let rc ← iptablesDoCommand fw.fwQuiet
    ⟨.mangle, .insert "PREROUTING" 0 ⟨[], .ext (.MARK .orMark fw.fwMarkBlocked.toNat)⟩⟩
  if rc = 0 then
    let _ ← iptablesDoCommand fw.fwQuiet ⟨.mangle, .deleteNum "PREROUTING" 0⟩
    pure { fw with markop := .orMark }
  else pure { fw with markop := .setMark }

/-- The second half: try a rule that compares a mark under a mask.
SOURCE: fw_iptables.c:131-142 -/
def checkMasking (fw : Firewall) : Program Firewall := do
  let rc ← iptablesDoCommand fw.fwQuiet
    ⟨.filter, .insert "FORWARD" 0
      ⟨[.mark fw.fwMarkBlocked (some fw.fwMarkMask)], .verdict (.REJECT none)⟩⟩
  if rc = 0 then
    let _ ← iptablesDoCommand fw.fwQuiet ⟨.filter, .deleteNum "FORWARD" 0⟩
    pure { fw with markmask := some fw.fwMarkMask }
  else pure { fw with markmask := none }

/-- `_iptables_check_mark_masking`.
SOURCE: fw_iptables.c:115-150 -/
def iptablesCheckMarkMasking (fw : Firewall) : Program (BitVec 32 × Firewall) := do
  let fw ← checkOrMark { fw with fwQuiet := true }
  let fw ← checkMasking fw
  pure (0, { fw with fwQuiet := false })

/-! ## Rulesets -/

/-- The target a rule of a ruleset gets.
SOURCE: fw_iptables.c:206-222 -/
def FirewallTarget.compile : FirewallTarget → Netfilter.Target Verdict Extension
  | .drop => .verdict .DROP
  | .reject => .verdict (.REJECT none)
  | .accept => .verdict .ACCEPT
  | .log => .ext .LOG
  | .ulog => .ext .ULOG

/-- The rule that `_iptables_compile` writes for a rule of a ruleset.
SOURCE: fw_iptables.c:224-242 -/
def compileRule (rule : FirewallRule) : IptablesRule where
  conds := (rule.mask.map Match.destination).toList ++ (rule.protocol.map Match.protocol).toList ++
    (rule.port.map Match.dport).toList
  target := rule.target.compile

/-- `_iptables_compile`.
SOURCE: fw_iptables.c:198-249 -/
def iptablesCompile (table : TableName) (chain : String) (rule : FirewallRule) :
    IptablesCommand :=
  ⟨table, .append chain (compileRule rule)⟩

/-- The commands of `_iptables_append_ruleset`.
SOURCE: fw_iptables.c:258-276 -/
def iptablesAppendRuleset (config : Config) (table : TableName) (ruleset : RulesetName)
    (chain : String) : List IptablesCommand :=
  (getRulesetList config ruleset).map (iptablesCompile table chain)

/-- `-j %s` with an empty-ruleset policy. -/
def EmptyRulesetPolicy.target : EmptyRulesetPolicy → Netfilter.Target Verdict Extension
  | .ACCEPT => .verdict .ACCEPT
  | .REJECT => .verdict (.REJECT none)
  | .RETURN => .ret

/-! ## The MAC chains -/

/-- SOURCE: fw_iptables.c:281 -/
def blockRule (fw : Firewall) (mac : Text) : IptablesRule :=
  ⟨[.macSource mac], .ext (.MARK fw.markop fw.fwMarkBlocked.toNat)⟩

/-- SOURCE: fw_iptables.c:293 -/
def allowRule (mac : Text) : IptablesRule := ⟨[.macSource mac], .ret⟩

/-- SOURCE: fw_iptables.c:305 -/
def trustRule (fw : Firewall) (mac : Text) : IptablesRule :=
  ⟨[.macSource mac], .ext (.MARK fw.markop fw.fwMarkTrusted.toNat)⟩

/-- The command of `iptables_block_mac`.
SOURCE: fw_iptables.c:278-282 -/
def iptablesBlockMac (fw : Firewall) (mac : Text) : IptablesCommand :=
  ⟨.mangle, .append CHAIN_BLOCKED (blockRule fw mac)⟩

/-- The command of `iptables_unblock_mac`.
SOURCE: fw_iptables.c:284-288 -/
def iptablesUnblockMac (fw : Firewall) (mac : Text) : IptablesCommand :=
  ⟨.mangle, .delete CHAIN_BLOCKED (blockRule fw mac)⟩

/-- The command of `iptables_allow_mac`.
SOURCE: fw_iptables.c:290-294 -/
def iptablesAllowMac (mac : Text) : IptablesCommand :=
  ⟨.mangle, .insert CHAIN_BLOCKED 0 (allowRule mac)⟩

/-- The command of `iptables_unallow_mac`.
SOURCE: fw_iptables.c:296-300 -/
def iptablesUnallowMac (mac : Text) : IptablesCommand :=
  ⟨.mangle, .delete CHAIN_BLOCKED (allowRule mac)⟩

/-- The command of `iptables_trust_mac`.
SOURCE: fw_iptables.c:302-306 -/
def iptablesTrustMac (fw : Firewall) (mac : Text) : IptablesCommand :=
  ⟨.mangle, .append CHAIN_TRUSTED (trustRule fw mac)⟩

/-- The command of `iptables_untrust_mac`.
SOURCE: fw_iptables.c:308-312 -/
def iptablesUntrustMac (fw : Firewall) (mac : Text) : IptablesCommand :=
  ⟨.mangle, .delete CHAIN_TRUSTED (trustRule fw mac)⟩

/-! ## iptables_fw_init -/

/-- `-j REJECT --reject-with icmp-port-unreachable`, for every packet. -/
def rejectRule : IptablesRule :=
  ⟨[], .verdict (.REJECT (some "icmp-port-unreachable"))⟩

/-- The rule `MAC_ALLOW` starts from: every packet is marked blocked.
SOURCE: fw_iptables.c:395 -/
def blockAllRule (fw : Firewall) : IptablesRule :=
  ⟨[], .ext (.MARK fw.markop fw.fwMarkBlocked.toNat)⟩

/-- A jump for the packets that come in on the gateway's interface. -/
def gatewayJump (config : Config) (chain : String) : IptablesRule :=
  ⟨[.inInterface config.gwInterface, .source config.gwIprange], .jump chain⟩

/-- The mangle table's chains, and the jumps to them.
SOURCE: fw_iptables.c:367-377 -/
def mangleChainCommands (config : Config) : List IptablesCommand :=
  [⟨.mangle, .newChain CHAIN_TRUSTED⟩,
    ⟨.mangle, .newChain CHAIN_BLOCKED⟩,
    ⟨.mangle, .newChain CHAIN_INCOMING⟩,
    ⟨.mangle, .newChain CHAIN_OUTGOING⟩,
    ⟨.mangle, .insert "PREROUTING" 0 (gatewayJump config CHAIN_OUTGOING)⟩,
    ⟨.mangle, .insert "PREROUTING" 1 (gatewayJump config CHAIN_BLOCKED)⟩,
    ⟨.mangle, .insert "PREROUTING" 2 (gatewayJump config CHAIN_TRUSTED)⟩,
    ⟨.mangle, .insert "POSTROUTING" 0
      ⟨[.outInterface config.gwInterface, .destination config.gwIprange], .jump CHAIN_INCOMING⟩⟩]

/-- The MAC rules.
SOURCE: fw_iptables.c:379-406 -/
def macCommands (fw : Firewall) (config : Config) : List IptablesCommand :=
  (config.maclist .trusted).map (iptablesTrustMac fw) ++
  match config.macmechanism with
  | .block => (config.maclist .blocked).map (iptablesBlockMac fw)
  | .allow =>
    ⟨.mangle, .append CHAIN_BLOCKED (blockAllRule fw)⟩ ::
      (config.maclist .allowed).map iptablesAllowMac

/-- The mangle table, up to traffic control.
SOURCE: fw_iptables.c:367-406 -/
def mangleCommands (fw : Firewall) (config : Config) : List IptablesCommand :=
  mangleChainCommands config ++ macCommands fw config

/-- The nat table.
SOURCE: fw_iptables.c:425-447 -/
def natCommands (fw : Firewall) (config : Config) : List IptablesCommand :=
  [⟨.nat, .newChain CHAIN_OUTGOING⟩,
    ⟨.nat, .insert "PREROUTING" 0 (gatewayJump config CHAIN_OUTGOING)⟩,
    ⟨.nat, .append CHAIN_OUTGOING
      ⟨[.mark fw.fwMarkTrusted fw.markmask], .verdict .ACCEPT⟩⟩,
    ⟨.nat, .append CHAIN_OUTGOING
      ⟨[.mark fw.fwMarkAuthenticated fw.markmask], .verdict .ACCEPT⟩⟩] ++
  iptablesAppendRuleset config .nat .preauthenticatedUsers CHAIN_OUTGOING ++
  [⟨.nat, .append CHAIN_OUTGOING
      ⟨[.protocol "tcp".toList, .dport "80".toList],
        .verdict (.DNAT config.gwAddress config.gwPort)⟩⟩,
    ⟨.nat, .append CHAIN_OUTGOING ⟨[], .verdict .ACCEPT⟩⟩]

/-- What `iptables_fw_init` does for the packets of one mark: an empty ruleset gives its
policy, another one a chain of its own.
SOURCE: fw_iptables.c:489-499, 553-563, 573-583 -/
def markedCommands (fw : Firewall) (config : Config) (chain : String) (mark : BitVec 32)
    (ruleset : RulesetName) (target : String) : List IptablesCommand :=
  if isEmptyRuleset config ruleset then
    [⟨.filter, .append chain
      ⟨[.mark mark fw.markmask], (getEmptyRulesetPolicy config ruleset).target⟩⟩]
  else
    [⟨.filter, .append chain ⟨[.mark mark fw.markmask], .jump target⟩⟩,
      ⟨.filter, .append target ⟨[.state [.RELATED, .ESTABLISHED]], .verdict .ACCEPT⟩⟩] ++
    iptablesAppendRuleset config .filter ruleset target ++
    [⟨.filter, .append target rejectRule⟩]

/-- The packets for the router itself.
SOURCE: fw_iptables.c:470-517 -/
def toRouterCommands (fw : Firewall) (config : Config) : List IptablesCommand :=
  [⟨.filter, .insert "INPUT" 0 (gatewayJump config CHAIN_TO_ROUTER)⟩,
    ⟨.filter, .append CHAIN_TO_ROUTER
      ⟨[.mark fw.fwMarkBlocked fw.markmask], .verdict .DROP⟩⟩,
    ⟨.filter, .append CHAIN_TO_ROUTER ⟨[.state [.INVALID]], .verdict .DROP⟩⟩,
    ⟨.filter, .append CHAIN_TO_ROUTER
      ⟨[.state [.RELATED, .ESTABLISHED]], .verdict .ACCEPT⟩⟩,
    ⟨.filter, .append CHAIN_TO_ROUTER
      ⟨[.protocol "tcp".toList, .tcpFlags [.SYN] [.SYN], .notTcpOption 2], .verdict .DROP⟩⟩,
    ⟨.filter, .append CHAIN_TO_ROUTER
      ⟨[.protocol "tcp".toList, .dport (Nat.toDigits 10 config.gwPort)], .verdict .ACCEPT⟩⟩] ++
  markedCommands fw config CHAIN_TO_ROUTER fw.fwMarkTrusted .trustedUsersToRouter
    CHAIN_TRUSTED_TO_ROUTER ++
  if isEmptyRuleset config .usersToRouter then
    [⟨.filter, .append CHAIN_TO_ROUTER
      ⟨[], (getEmptyRulesetPolicy config .usersToRouter).target⟩⟩]
  else
    iptablesAppendRuleset config .filter .usersToRouter CHAIN_TO_ROUTER ++
    [⟨.filter, .append CHAIN_TO_ROUTER rejectRule⟩]

/-- The packets the router forwards.
SOURCE: fw_iptables.c:519-593 -/
def toInternetCommands (fw : Firewall) (config : Config) : List IptablesCommand :=
  [⟨.filter, .insert "FORWARD" 0 (gatewayJump config CHAIN_TO_INTERNET)⟩,
    ⟨.filter, .append CHAIN_TO_INTERNET
      ⟨[.mark fw.fwMarkBlocked fw.markmask], .verdict .DROP⟩⟩,
    ⟨.filter, .append CHAIN_TO_INTERNET ⟨[.state [.INVALID]], .verdict .DROP⟩⟩] ++
  (if config.setMss then
    [⟨.filter, .append CHAIN_TO_INTERNET
      ⟨[.protocol "tcp".toList, .tcpFlags [.SYN, .RST] [.SYN]],
        .ext (.TCPMSS (if config.mssValue > 0 then some config.mssValue else none))⟩⟩]
  else []) ++
  markedCommands fw config CHAIN_TO_INTERNET fw.fwMarkTrusted .trustedUsers CHAIN_TRUSTED ++
  markedCommands fw config CHAIN_TO_INTERNET fw.fwMarkAuthenticated .authenticatedUsers
    CHAIN_AUTHENTICATED ++
  (if isEmptyRuleset config .preauthenticatedUsers then
    [⟨.filter, .append CHAIN_TO_INTERNET
      ⟨[], (getEmptyRulesetPolicy config .preauthenticatedUsers).target⟩⟩]
  else iptablesAppendRuleset config .filter .preauthenticatedUsers CHAIN_TO_INTERNET) ++
  [⟨.filter, .append CHAIN_TO_INTERNET rejectRule⟩]

/-- The filter table.
SOURCE: fw_iptables.c:460-593 -/
def filterCommands (fw : Firewall) (config : Config) : List IptablesCommand :=
  [⟨.filter, .newChain CHAIN_TO_INTERNET⟩,
    ⟨.filter, .newChain CHAIN_TO_ROUTER⟩,
    ⟨.filter, .newChain CHAIN_AUTHENTICATED⟩,
    ⟨.filter, .newChain CHAIN_TRUSTED⟩,
    ⟨.filter, .newChain CHAIN_TRUSTED_TO_ROUTER⟩] ++
  toRouterCommands fw config ++ toInternetCommands fw config

/-- `iptables_fw_init` after the marks are set up: the three tables.
SOURCE: fw_iptables.c:367-605 -/
def iptablesFwInitTables (fw : Firewall) (config : Config) : Program (BitVec 32) := do
  let rc₁ ← iptablesDoCommands fw.fwQuiet (mangleCommands fw config)
  let rc₂ ← (if config.trafficControl then tcInitTc fw.fwQuiet config else pure 0)
  let rc₃ ← iptablesDoCommands fw.fwQuiet (natCommands fw config)
  let rc₄ ← iptablesDoCommands fw.fwQuiet (filterCommands fw config)
  pure (rc₁ ||| rc₂ ||| rc₃ ||| rc₄)

/-- The part of `iptables_fw_init` that sets up the marks.
SOURCE: fw_iptables.c:351-358 -/
def iptablesFwInitMarks (config : Config) (fw : Firewall) : Program (BitVec 32 × Firewall) := do
  let marks := iptablesInitMarks
    { fw with
      fwMarkBlocked := config.fwMarkBlocked
      fwMarkTrusted := config.fwMarkTrusted
      fwMarkAuthenticated := config.fwMarkAuthenticated }
  let masking ← iptablesCheckMarkMasking marks.2
  pure (marks.1 ||| masking.1, masking.2)

/-- `iptables_fw_init`.
SOURCE: fw_iptables.c:314-605 -/
def iptablesFwInit (config : Config) (fw : Firewall) : Program (BitVec 32 × Firewall) := do
  let marks ← iptablesFwInitMarks config fw
  let rc ← iptablesFwInitTables marks.2 config
  pure (marks.1 ||| rc, marks.2)

/-! ## iptables_fw_access -/

/-- SOURCE: auth.h:33-37 -/
inductive AuthAction
  | makeDeauthenticated | makeAuthenticated
deriving DecidableEq, Repr

/-- The mark of a client's packets, `0x%x%x`. -/
def clientMark (fw : Firewall) (client : Client) : ℕ :=
  hexNumeral [client.idx + 10, fw.fwMarkAuthenticated.toNat]

/-- The rule that marks a client's outgoing packets.
SOURCE: fw_iptables.c:774, 786 -/
def outgoingMarkRule (fw : Firewall) (client : Client) : IptablesRule :=
  ⟨[.source client.ip, .macSource client.mac], .ext (.MARK fw.markop (clientMark fw client))⟩

/-- The rule that marks a client's incoming packets.
SOURCE: fw_iptables.c:775, 787 -/
def incomingMarkRule (fw : Firewall) (client : Client) : IptablesRule :=
  ⟨[.destination client.ip], .ext (.MARK fw.markop (clientMark fw client))⟩

/-- The rule that counts a client's incoming packets.
SOURCE: fw_iptables.c:777, 788 -/
def incomingAcceptRule (client : Client) : IptablesRule :=
  ⟨[.destination client.ip], .verdict .ACCEPT⟩

/-- The three commands that open or close the firewall for a client, with `-A` or `-D`. -/
def accessCommands (op : String → IptablesRule → IptablesOp) (fw : Firewall) (client : Client) :
    List IptablesCommand :=
  [⟨.mangle, op CHAIN_OUTGOING (outgoingMarkRule fw client)⟩,
    ⟨.mangle, op CHAIN_INCOMING (incomingMarkRule fw client)⟩,
    ⟨.mangle, op CHAIN_INCOMING (incomingAcceptRule client)⟩]

/-- `iptables_fw_access`.
SOURCE: fw_iptables.c:746-800 -/
def iptablesFwAccess (config : Config) (fw : Firewall) (action : AuthAction) (client : Client) :
    Program (BitVec 32 × Firewall) := do
  let fw := { fw with fwQuiet := false }
  let downloadImqname := imqName config.downloadImq
  let uploadImqname := imqName config.uploadImq
  let ownLimits := client.downloadLimit > 0 && client.uploadLimit > 0
  let downloadLimit := if ownLimits then client.downloadLimit else config.downloadLimit
  let uploadLimit := if ownLimits then client.uploadLimit else config.uploadLimit
  match action with
  | .makeAuthenticated =>
    let rc₁ ← iptablesDoCommands fw.fwQuiet (accessCommands .append fw client)
    let rc₂ ← (if config.trafficControl then
      tcAttachClient downloadImqname downloadLimit uploadImqname uploadLimit client.idx
        fw.fwMarkAuthenticated
      else pure 0)
    pure (rc₁ ||| rc₂, fw)
  | .makeDeauthenticated =>
    let rc₁ ← iptablesDoCommands fw.fwQuiet (accessCommands .delete fw client)
    let rc₂ ← (if config.trafficControl then
      tcDetachClient downloadImqname uploadImqname client.idx
      else pure 0)
    pure (rc₁ ||| rc₂, fw)

/-! ## iptables_fw_destroy -/

/-- `strstr(line, word) != NULL`. -/
def strstr (line word : Text) : Bool := decide (word <:+: line)

/-- The number of a listed rule that mentions a word, `sscanf(line, "%9[0-9]", rulenum)`.
SOURCE: fw_iptables.c:718-720 -/
def mentionedRule (mention : String) (line : Text) : Option ℕ :=
  if strstr line mention.toList then
    (set 9 Char.isDigit line).map fun read => Nat.ofDigitChars 10 read.1 0
  else none

/-- `iptables_fw_destroy_mention`, to the given depth of its recursion: `none` when it
has not returned by then.
SOURCE: fw_iptables.c:692-742 -/
def iptablesFwDestroyMention (fwQuiet : Bool) (table : TableName) (chain mention : String) :
    ℕ → Program (Option (BitVec 32))
  | 0 => pure none
  | fuel + 1 => do
    let lines : List Text ← Prog.question (Event.list table chain)
    match lines.findSome? (mentionedRule mention) with
    | none => pure (some (-1))
    | some rulenum =>
      let _ ← iptablesDoCommand fwQuiet ⟨table, .deleteNum chain (rulenum - 1)⟩
      -- the recursion is only there for its effect
      let rest ← iptablesFwDestroyMention fwQuiet table chain mention fuel
      pure (rest.map fun _ => 0)

/-- The calls of `iptables_fw_destroy_mention` for one table: whether all of them have
returned. -/
def destroyMentions (fuel : ℕ) (fwQuiet : Bool) (table : TableName) :
    List (String × String) → Program Bool
  | [] => pure true
  | (chain, mention) :: rest => do
    let retval ← iptablesFwDestroyMention fwQuiet table chain mention fuel
    if retval.isSome then destroyMentions fuel fwQuiet table rest else pure false

/-- One table's part of `iptables_fw_destroy`: the mentions, then `-F`, then `-X`. -/
def destroyTable (fuel : ℕ) (fwQuiet : Bool) (table : TableName)
    (mentions : List (String × String)) (chains : List String) : Program Bool := do
  let done ← destroyMentions fuel fwQuiet table mentions
  if done then
    let _ ← iptablesDoCommands fwQuiet
      (chains.map (fun c => ⟨table, .flush c⟩) ++ chains.map fun c => ⟨table, .deleteChain c⟩)
    pure true
  else pure false

/-- SOURCE: fw_iptables.c:636-652 -/
def destroyMangle (fuel : ℕ) (fwQuiet : Bool) : Program Bool :=
  destroyTable fuel fwQuiet .mangle
    [("PREROUTING", CHAIN_TRUSTED), ("PREROUTING", CHAIN_BLOCKED), ("PREROUTING", CHAIN_ALLOWED),
      ("PREROUTING", CHAIN_OUTGOING), ("POSTROUTING", CHAIN_INCOMING)]
    [CHAIN_TRUSTED, CHAIN_BLOCKED, CHAIN_ALLOWED, CHAIN_OUTGOING, CHAIN_INCOMING]

/-- SOURCE: fw_iptables.c:659-662 -/
def destroyNat (fuel : ℕ) (fwQuiet : Bool) : Program Bool :=
  destroyTable fuel fwQuiet .nat [("PREROUTING", CHAIN_OUTGOING)] [CHAIN_OUTGOING]

/-- SOURCE: fw_iptables.c:669-681 -/
def destroyFilter (fuel : ℕ) (fwQuiet : Bool) : Program Bool :=
  destroyTable fuel fwQuiet .filter
    [("INPUT", CHAIN_TO_ROUTER), ("FORWARD", CHAIN_TO_INTERNET)]
    [CHAIN_TO_ROUTER, CHAIN_TO_INTERNET, CHAIN_AUTHENTICATED, CHAIN_TRUSTED,
      CHAIN_TRUSTED_TO_ROUTER]

/-- `iptables_fw_destroy`, the recursions to depth `fuel`: whether all of them have
returned by then.  It leaves `fw_quiet` set.
SOURCE: fw_iptables.c:611-684 -/
def iptablesFwDestroy (fuel : ℕ) (config : Config) (fw : Firewall) :
    Program (Bool × Firewall) := do
  let fw := { fw with fwQuiet := true }
  let _ ← (if config.trafficControl then tcDestroyTc config else pure 0)
  let mangle ← destroyMangle fuel fw.fwQuiet
  let nat ← (if mangle then destroyNat fuel fw.fwQuiet else pure false)
  let filter ← (if nat then destroyFilter fuel fw.fwQuiet else pure false)
  pure (filter, fw)

end WifiCat
