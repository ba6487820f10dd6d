import WifiCat.Model.FwIptables
import WifiCat.Model.Centerserver

/-!
# The text of a ruleset's commands

`_iptables_compile` writes a rule into a buffer of `MAX_BUF` bytes, piece by piece, and
`iptables_do_command` takes the text it is given as a `printf` format without arguments.
-/

set_option autoImplicit false

namespace WifiCat

open Scan

/-- The name of a table. -/
def TableName.text : TableName → Text
  | .mangle => "mangle".toList
  | .nat => "nat".toList
  | .filter => "filter".toList

/-- `mode`.
SOURCE: fw_iptables.c:206-222 -/
def FirewallTarget.mode : FirewallTarget → Text
  | .drop => "DROP".toList
  | .reject => "REJECT".toList
  | .accept => "ACCEPT".toList
  | .log => "LOG".toList
  | .ulog => "ULOG".toList

/-- `snprintf(command + strlen(command), sizeof(command) - strlen(command), …)`: what does not
fit in front of the final NUL is cut off. -/
def snprintfAppend (command text : Text) : Text :=
  command ++ text.take (MAX_BUF - command.length - 1)

/-- `snprintf` of an option, where the rule has it. -/
def snprintfOption (option : Text) (value : Option Text) (command : Text) : Text :=
  value.elim command fun value => snprintfAppend command (option ++ value ++ [' '])

/-- The text that `_iptables_compile` returns.
SOURCE: fw_iptables.c:198-249 -/
def iptablesCompileText (table : TableName) (chain : String) (rule : FirewallRule) : Text :=
  let command := snprintfAppend []
    ("-t ".toList ++ table.text ++ " -A ".toList ++ chain.toList ++ [' '])
  let command := snprintfOption "-d ".toList rule.mask command
  let command := snprintfOption "-p ".toList rule.protocol command
  let command := snprintfOption "--dport ".toList rule.port command
  snprintfAppend command ("-j ".toList ++ rule.target.mode)

/-- `vasprintf` of a format for which no arguments were given: `none` where it asks for one,
which is undefined. -/
def vasprintf : Text → Option Text
  | [] => some []
  | ['%'] => none
  | '%' :: c :: s => if c = '%' then (vasprintf s).map ('%' :: ·) else none
  | c :: s => (vasprintf s).map (c :: ·)

/-- The command that `iptables_do_command` executes, given a format alone.
SOURCE: fw_iptables.c:160-166 -/
def iptablesDoCommandText (format : Text) : Option Text :=
  (vasprintf format).map ("iptables ".toList ++ ·)

/-- The commands that `_iptables_append_ruleset` executes.
SOURCE: fw_iptables.c:258-276 -/
def iptablesAppendRulesetText (table : TableName) (chain : String) (rules : List FirewallRule) :
    List (Option Text) :=
  rules.map fun rule => iptablesDoCommandText (iptablesCompileText table chain rule)

/-- The tables and chains into which `iptables_fw_init` loads a ruleset.
SOURCE: fw_iptables.c:439, 497, 513, 555, 575, 590 -/
def loadedInto : RulesetName → List (TableName × String)
  | .preauthenticatedUsers => [(.nat, CHAIN_OUTGOING), (.filter, CHAIN_TO_INTERNET)]
  | .authenticatedUsers => [(.filter, CHAIN_AUTHENTICATED)]
  | .usersToRouter => [(.filter, CHAIN_TO_ROUTER)]
  | .trustedUsers => [(.filter, CHAIN_TRUSTED)]
  | .trustedUsersToRouter => [(.filter, CHAIN_TRUSTED_TO_ROUTER)]

end WifiCat
