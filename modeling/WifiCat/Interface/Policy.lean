import WifiCat.Model.Packet

/-!
# The policy of the rulesets

What the five rulesets of the configuration say about a packet, without tables, chains
or jumps: the class its mark puts it into, and the first rule of the ruleset of that
class that decides.
-/

set_option autoImplicit false

namespace WifiCat.Interface

open Scan

variable {H : Type}

/-- What can become of a packet. -/
inductive Decision
  | accept | drop | reject | ret
deriving DecidableEq, Repr

/-- The class of a packet. -/
inductive MarkClass
  | blocked | trusted | authenticated | other
deriving DecidableEq, Repr

/-- The class that the mark rules of the filter table put a mark into. -/
def markClass (fw : Firewall) (mark : BitVec 32) : MarkClass :=
  if markMatches fw.fwMarkBlocked fw.markmask mark then .blocked
  else if markMatches fw.fwMarkTrusted fw.markmask mark then .trusted
  else if markMatches fw.fwMarkAuthenticated fw.markmask mark then .authenticated
  else .other

/-- A rule of a ruleset applies to a packet. -/
def applies (R : Reading H) (h : H) (rule : FirewallRule) : Bool :=
  rule.mask.all (R.destination · h) && rule.protocol.all (R.protocol · h) &&
    rule.port.all (R.dport · h)

/-- What a target decides; logging decides nothing. -/
def targetDecision : FirewallTarget → Option Decision
  | .drop => some .drop
  | .reject => some .reject
  | .accept => some .accept
  | .log => none
  | .ulog => none

/-- The first rule that applies and decides. -/
def firstMatch (R : Reading H) (rules : List FirewallRule) (h : H) : Option Decision :=
  rules.findSome? fun rule => if applies R h rule then targetDecision rule.target else none

/-- The policy of an empty ruleset. -/
def policyDecision : EmptyRulesetPolicy → Decision
  | .ACCEPT => .accept
  | .REJECT => .reject
  | .RETURN => .ret

/-- Packets of a known connection. -/
def established (R : Reading H) (h : H) : Bool := R.state .RELATED h || R.state .ESTABLISHED h

/-- A ruleset on its own: its policy when it is empty, else its first match, else reject. -/
def rulesetDecision (R : Reading H) (config : Config) (name : RulesetName) (h : H) : Decision :=
  if isEmptyRuleset config name then policyDecision (getEmptyRulesetPolicy config name)
  else (firstMatch R (getRulesetList config name) h).getD .reject

/-- The ruleset of a marked packet: known connections pass, unless the ruleset is empty. -/
def markedDecision (R : Reading H) (config : Config) (name : RulesetName) (h : H) : Decision :=
  if isEmptyRuleset config name then policyDecision (getEmptyRulesetPolicy config name)
  else if established R h then .accept
  else (firstMatch R (getRulesetList config name) h).getD .reject

/-- The packets the router forwards. -/
def internetPolicy (R : Reading H) (config : Config) (cls : MarkClass) (h : H) : Decision :=
  if cls = .blocked ∨ R.state .INVALID h then .drop
  else
    match cls with
    | .trusted => markedDecision R config .trustedUsers h
    | .authenticated => markedDecision R config .authenticatedUsers h
    | _ => rulesetDecision R config .preauthenticatedUsers h

/-- The packets for the router itself. -/
def routerPolicy (R : Reading H) (config : Config) (cls : MarkClass) (h : H) : Decision :=
  let tcp := R.protocol "tcp".toList h
  if cls = .blocked ∨ R.state .INVALID h then .drop
  else if established R h then .accept
  else if tcp && R.tcpFlags [.SYN] [.SYN] h && !R.tcpOption 2 h then .drop
  else if tcp && R.dport (Nat.toDigits 10 config.gwPort) h then .accept
  else if cls = .trusted then markedDecision R config .trustedUsersToRouter h
  else rulesetDecision R config .usersToRouter h

end WifiCat.Interface
