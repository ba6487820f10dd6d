import WifiCat.Analysis.CommandExecution
import WifiCat.Model.FwIptables

/-!
# The chains a start-up leaves

What `iptables_fw_init` puts into each chain, when none of its commands failed: the
contents are written down as lists of rules and shown to be the replay of the commands
that name the chain.  The two capability probes touch `PREROUTING` and `FORWARD` only
and decide the mark operator and the mask; `fwInitMarks_result` says what is known of
them whatever the machine answers.
-/

set_option autoImplicit false

namespace WifiCat.Analysis

open CommandProgram Netfilter Scan

variable {out : Outside} {config : Config} {fw : Firewall}

/-! ## Marks -/

/-- The marks are nonzero and pairwise distinct. -/
def MarksAccepted (config : Config) : Prop :=
  config.fwMarkBlocked ≠ config.fwMarkTrusted ∧
    config.fwMarkTrusted ≠ config.fwMarkAuthenticated ∧
    config.fwMarkAuthenticated ≠ config.fwMarkBlocked ∧
    config.fwMarkBlocked ≠ 0 ∧ config.fwMarkTrusted ≠ 0 ∧ config.fwMarkAuthenticated ≠ 0

/-- What start-up settles about the globals, whatever the kernel supports. -/
structure MarksReady (config : Config) (fw : Firewall) : Prop where
  blocked : fw.fwMarkBlocked = config.fwMarkBlocked
  trusted : fw.fwMarkTrusted = config.fwMarkTrusted
  authenticated : fw.fwMarkAuthenticated = config.fwMarkAuthenticated
  accepted : MarksAccepted config
  markmask : fw.markmask = none ∨
    fw.markmask =
      some (config.fwMarkBlocked ||| config.fwMarkTrusted ||| config.fwMarkAuthenticated)

/-- The chains the capability probes name. -/
def probePlaces : Set Place := {(.mangle, "PREROUTING"), (.filter, "FORWARD")}

/-- INTERNAL: the probes only choose the mark operator and the mask.
SOURCE: fw_iptables.c:115-150 -/
theorem checkMarkMasking_runs {K : Command → Prop}
    (hK : ∀ c : IptablesCommand, (c.table, c.op.chain) ∈ probePlaces → K (.iptables c))
    (fw : Firewall) :
    Runs K
      (fun r => r.1 = 0 ∧ ∃ op mask, (mask = none ∨ mask = some fw.fwMarkMask) ∧
        r.2 = { fw with fwQuiet := false, markop := op, markmask := mask })
      (iptablesCheckMarkMasking fw) := by
  have hor : ∀ fw : Firewall, Runs K
      (fun fw' => ∃ op, fw' = { fw with markop := op }) (checkOrMark fw) := by
    intro fw
    unfold checkOrMark
    refine (runs_iptablesDoCommand (hK _ (by exact Or.inl rfl))).bind fun rc _ => ?_
    split
    · exact (runs_iptablesDoCommand (hK _ (by exact Or.inl rfl))).bind fun rc _ => ⟨_, rfl⟩
    · exact ⟨_, rfl⟩
  have hmask : ∀ fw : Firewall, Runs K
      (fun fw' => ∃ mask, (mask = none ∨ mask = some fw.fwMarkMask) ∧
        fw' = { fw with markmask := mask }) (checkMasking fw) := by
    intro fw
    unfold checkMasking
    refine (runs_iptablesDoCommand (hK _ (by exact Or.inr rfl))).bind fun rc _ => ?_
    split
    · exact (runs_iptablesDoCommand (hK _ (by exact Or.inr rfl))).bind fun rc _ => ⟨_, Or.inr rfl, rfl⟩
    · exact ⟨_, Or.inl rfl, rfl⟩
  unfold iptablesCheckMarkMasking
  refine (hor _).bind ?_
  rintro _ ⟨op, rfl⟩
  refine (hmask _).bind ?_
  rintro _ ⟨mask, hmask, rfl⟩
  exact ⟨rfl, op, mask, hmask, rfl⟩

/-- INTERNAL: errors are logged after the probes; a start that goes on has accepted the
marks, and the globals are ready.
SOURCE: fw_iptables.c:77-150 -/
theorem fwInitMarks_runs {K : Command → Prop}
    (hK : ∀ c : IptablesCommand, (c.table, c.op.chain) ∈ probePlaces → K (.iptables c))
    (config : Config) (fw : Firewall) :
    Runs K
      (fun r => r.2.fwQuiet = false ∧ (r.1 = 0 → MarksReady config r.2))
      (iptablesFwInitMarks config fw) := by
  unfold iptablesFwInitMarks
  refine (checkMarkMasking_runs hK _).bind ?_
  rintro ⟨rc, fw'⟩ ⟨hrc, op, mask, hmask, hfw⟩
  dsimp only at hrc hfw
  subst hrc hfw
  refine ⟨rfl, fun hzero => ?_⟩
  have hinit := (BitVec.or_eq_zero_iff.mp hzero).1
  unfold iptablesInitMarks at hinit hmask ⊢
  dsimp only at hinit hmask ⊢
  split at hinit
  · exact absurd hinit (by decide : (-1 : BitVec 32) ≠ 0)
  · next hdistinct =>
    rw [if_neg hdistinct] at hmask ⊢
    split at hinit
    · exact absurd hinit (by decide : (-1 : BitVec 32) ≠ 0)
    · next hnonzero =>
      rw [if_neg hnonzero] at hmask ⊢
      push Not at hdistinct hnonzero
      exact ⟨rfl, rfl, rfl, ⟨hdistinct.1, hdistinct.2.1, hdistinct.2.2, hnonzero.1,
        hnonzero.2.1, hnonzero.2.2⟩, hmask⟩

theorem fwInitMarks_result (config : Config) (fw : Firewall) :
    Runs (fun cmd => ∀ x, place cmd = some x → x ∈ probePlaces)
      (fun r => r.2.fwQuiet = false ∧ (r.1 = 0 → MarksReady config r.2))
      (iptablesFwInitMarks config fw) := by
  refine fwInitMarks_runs ?_ config fw
  rintro c hc x ⟨⟩
  exact hc

/-! ## The contents of the chains -/

/-- The rule for the packets of one mark. -/
def markedRule (fw : Firewall) (config : Config) (mark : BitVec 32) (ruleset : RulesetName)
    (target : String) : IptablesRule :=
  ⟨[.mark mark fw.markmask],
    if isEmptyRuleset config ruleset then (getEmptyRulesetPolicy config ruleset).target
    else .jump target⟩

/-- The rules of a ruleset. -/
def rulesetRules (config : Config) (ruleset : RulesetName) : List IptablesRule :=
  (getRulesetList config ruleset).map compileRule

/-- The chain a ruleset that is not empty has of its own. -/
def ownChain (config : Config) (ruleset : RulesetName) : List IptablesRule :=
  if isEmptyRuleset config ruleset then []
  else
    ⟨[.state [.RELATED, .ESTABLISHED]], .verdict .ACCEPT⟩ ::
      (rulesetRules config ruleset ++ [rejectRule])

/-- SOURCE: fw_iptables.c:470-517 -/
def routerChain (fw : Firewall) (config : Config) : List IptablesRule :=
  [⟨[.mark fw.fwMarkBlocked fw.markmask], .verdict .DROP⟩,
    ⟨[.state [.INVALID]], .verdict .DROP⟩,
    ⟨[.state [.RELATED, .ESTABLISHED]], .verdict .ACCEPT⟩,
    ⟨[.protocol "tcp".toList, .tcpFlags [.SYN] [.SYN], .notTcpOption 2], .verdict .DROP⟩,
    ⟨[.protocol "tcp".toList, .dport (Nat.toDigits 10 config.gwPort)], .verdict .ACCEPT⟩,
    markedRule fw config fw.fwMarkTrusted .trustedUsersToRouter CHAIN_TRUSTED_TO_ROUTER] ++
  if isEmptyRuleset config .usersToRouter then
    [⟨[], (getEmptyRulesetPolicy config .usersToRouter).target⟩]
  else rulesetRules config .usersToRouter ++ [rejectRule]

/-- The rule for the segment size, if it is configured.
SOURCE: fw_iptables.c:531-541 -/
def mssRules (config : Config) : List IptablesRule :=
  if config.setMss then
    [⟨[.protocol "tcp".toList, .tcpFlags [.SYN, .RST] [.SYN]],
      .ext (.TCPMSS (if config.mssValue > 0 then some config.mssValue else none))⟩]
  else []

/-- The rules for the packets without a trusted or authenticated mark.
SOURCE: fw_iptables.c:588-592 -/
def preauthenticatedRules (config : Config) : List IptablesRule :=
  if isEmptyRuleset config .preauthenticatedUsers then
    [⟨[], (getEmptyRulesetPolicy config .preauthenticatedUsers).target⟩]
  else rulesetRules config .preauthenticatedUsers

/-- SOURCE: fw_iptables.c:519-593 -/
def internetChain (fw : Firewall) (config : Config) : List IptablesRule :=
  [⟨[.mark fw.fwMarkBlocked fw.markmask], .verdict .DROP⟩,
    ⟨[.state [.INVALID]], .verdict .DROP⟩] ++
  mssRules config ++
  [markedRule fw config fw.fwMarkTrusted .trustedUsers CHAIN_TRUSTED,
    markedRule fw config fw.fwMarkAuthenticated .authenticatedUsers CHAIN_AUTHENTICATED] ++
  preauthenticatedRules config ++ [rejectRule]

/-- SOURCE: fw_iptables.c:430-447 -/
def natOutgoingChain (fw : Firewall) (config : Config) : List IptablesRule :=
  [⟨[.mark fw.fwMarkTrusted fw.markmask], .verdict .ACCEPT⟩,
    ⟨[.mark fw.fwMarkAuthenticated fw.markmask], .verdict .ACCEPT⟩] ++
  rulesetRules config .preauthenticatedUsers ++
  [⟨[.protocol "tcp".toList, .dport "80".toList],
      .verdict (.DNAT config.gwAddress config.gwPort)⟩,
    ⟨[], .verdict .ACCEPT⟩]

/-- SOURCE: fw_iptables.c:379-399 -/
def blockedChain (fw : Firewall) (config : Config) : List IptablesRule :=
  match config.macmechanism with
  | .block => (config.maclist .blocked).map fun mac => readRule (blockRule fw mac)
  | .allow => ((config.maclist .allowed).map fun mac => readRule (allowRule mac)).reverse ++
      [blockAllRule fw]

/-- SOURCE: fw_iptables.c:379-382 -/
def trustedChain (fw : Firewall) (config : Config) : List IptablesRule :=
  (config.maclist .trusted).map fun mac => readRule (trustRule fw mac)

@[simp] theorem readRule_compileRule (rule : FirewallRule) :
    readRule (compileRule rule) = compileRule rule := by
  obtain ⟨target, protocol, port, mask⟩ := rule
  cases protocol <;> cases port <;> cases mask <;> rfl

/-! ## The chains the commands name -/

/-- INTERNAL: every command of a list names a chain of the set. -/
def NamesIn (S : List Place) (cmds : List IptablesCommand) : Prop :=
  ∀ cmd ∈ cmds, (cmd.table, cmd.op.chain) ∈ S

theorem NamesIn.append {S : List Place} {cmds cmds' : List IptablesCommand} (h : NamesIn S cmds)
    (h' : NamesIn S cmds') : NamesIn S (cmds ++ cmds') := by
  intro cmd hcmd
  rcases List.mem_append.mp hcmd with hcmd | hcmd
  · exact h cmd hcmd
  · exact h' cmd hcmd

theorem NamesIn.mono {S S' : List Place} {cmds : List IptablesCommand} (h : NamesIn S cmds)
    (hS : S ⊆ S') : NamesIn S' cmds :=
  fun cmd hcmd => hS (h cmd hcmd)

theorem namesIn_appendRuleset (config : Config) (table : TableName) (ruleset : RulesetName)
    (chain : String) :
    NamesIn [(table, chain)] (iptablesAppendRuleset config table ruleset chain) := by
  intro cmd hcmd
  obtain ⟨rule, -, rfl⟩ := List.mem_map.mp hcmd
  simp [iptablesCompile, Op.chain]

theorem namesIn_markedCommands (chain target : String) (mark : BitVec 32)
    (ruleset : RulesetName) :
    NamesIn [(.filter, chain), (.filter, target)]
      (markedCommands fw config chain mark ruleset target) := by
  unfold markedCommands
  split
  · intro cmd hcmd
    rw [List.mem_singleton.mp hcmd]
    simp [Op.chain]
  · refine NamesIn.append (NamesIn.append ?_ ?_) ?_
    · intro cmd hcmd
      rcases List.mem_cons.mp hcmd with rfl | hcmd
      · simp [Op.chain]
      · rw [List.mem_singleton.mp hcmd]
        simp [Op.chain]
    · exact (namesIn_appendRuleset config .filter ruleset target).mono (by simp)
    · intro cmd hcmd
      rw [List.mem_singleton.mp hcmd]
      simp [Op.chain]

/-- SOURCE: fw_iptables.c:470-517 -/
def toRouterPlaces : List Place :=
  [(.filter, "INPUT"), (.filter, CHAIN_TO_ROUTER), (.filter, CHAIN_TRUSTED_TO_ROUTER)]

/-- SOURCE: fw_iptables.c:519-593 -/
def toInternetPlaces : List Place :=
  [(.filter, "FORWARD"), (.filter, CHAIN_TO_INTERNET), (.filter, CHAIN_TRUSTED),
    (.filter, CHAIN_AUTHENTICATED)]

theorem namesIn_toRouterCommands (fw : Firewall) (config : Config) :
    NamesIn toRouterPlaces (toRouterCommands fw config) := by
  unfold toRouterCommands
  refine NamesIn.append (NamesIn.append ?_ ?_) ?_
  · simp [NamesIn, Op.chain, toRouterPlaces]
  · exact (namesIn_markedCommands _ _ _ _).mono (by simp [toRouterPlaces])
  · split
    · simp [NamesIn, Op.chain, toRouterPlaces]
    · refine NamesIn.append ?_ (by simp [NamesIn, Op.chain, toRouterPlaces])
      exact (namesIn_appendRuleset _ _ _ _).mono (by simp [toRouterPlaces])

theorem namesIn_toInternetCommands (fw : Firewall) (config : Config) :
    NamesIn toInternetPlaces (toInternetCommands fw config) := by
  unfold toInternetCommands
  refine NamesIn.append (NamesIn.append (NamesIn.append (NamesIn.append (NamesIn.append ?_ ?_)
    ?_) ?_) ?_) ?_
  · simp [NamesIn, Op.chain, toInternetPlaces]
  · split <;> simp [NamesIn, Op.chain, toInternetPlaces]
  · exact (namesIn_markedCommands _ _ _ _).mono (by simp [toInternetPlaces])
  · exact (namesIn_markedCommands _ _ _ _).mono (by simp [toInternetPlaces])
  · split
    · simp [NamesIn, Op.chain, toInternetPlaces]
    · exact (namesIn_appendRuleset _ _ _ _).mono (by simp [toInternetPlaces])
  · simp [NamesIn, Op.chain, toInternetPlaces]

section Replay

variable (o : Option (List IptablesRule))

/-- INTERNAL: what one command does to the content of a chain. -/
theorem replay_readCommand (k : TableName) (c : String) (cmd : IptablesCommand)
    (cmds : List IptablesCommand) :
    Cmd.replay k c (readCommand cmd :: cmds) o =
      Cmd.replay k c cmds
        (if cmd.table = k ∧ cmd.op.chain = c then (cmd.op.mapRule readRule).effect o else o) := by
  rw [Cmd.replay_cons]
  by_cases h : cmd.table = k ∧ cmd.op.chain = c
  · simp [Cmd.onChain, Cmd.mapRule, h]
  · have hb : Cmd.onChain k c (readCommand cmd) = false :=
      Cmd.onChain_eq_false.mpr (by simpa [Cmd.mapRule] using h)
    simp [hb, h]

/-- INTERNAL: commands that do not name a chain leave it alone. -/
theorem NamesIn.replay {S : List Place} {cmds : List IptablesCommand} (h : NamesIn S cmds)
    {k : TableName} {c : String} (hkc : (k, c) ∉ S) :
    Cmd.replay k c (cmds.map readCommand) o = o := by
  refine Cmd.replay_of_forall_not ?_ o
  intro cmd hcmd
  obtain ⟨d, hd, rfl⟩ := List.mem_map.mp hcmd
  refine Cmd.onChain_eq_false.mpr ?_
  rintro ⟨htable, hchain⟩
  simp only [readCommand, Cmd.mapRule, Op.chain_mapRule] at htable hchain
  have hmem := h d hd
  rw [htable, hchain] at hmem
  exact hkc hmem

/-- INTERNAL: a loaded ruleset is appended to its chain.
SOURCE: fw_iptables.c:258-276 -/
theorem replay_appendRuleset (config : Config) (k table : TableName) (c chain : String)
    (ruleset : RulesetName) :
    Cmd.replay k c ((iptablesAppendRuleset config table ruleset chain).map readCommand) o =
      if table = k ∧ chain = c then o.map (· ++ rulesetRules config ruleset) else o := by
  have hread : (iptablesAppendRuleset config table ruleset chain).map readCommand =
      (getRulesetList config ruleset).map fun rule =>
        (⟨table, .append chain (compileRule rule)⟩ : IptablesCommand) := by
    simp only [iptablesAppendRuleset, List.map_map]
    refine List.map_congr_left fun rule _ => ?_
    simp [iptablesCompile, Cmd.mapRule, Op.mapRule]
  rw [hread, Cmd.replay_map_append]
  rfl

/-- INTERNAL: the commands for the packets of one mark.
SOURCE: fw_iptables.c:489-499 -/
theorem replay_markedCommands {c chain target : String} (hne : chain ≠ target)
    (mark : BitVec 32) (ruleset : RulesetName) :
    Cmd.replay .filter c ((markedCommands fw config chain mark ruleset target).map readCommand) o =
      if chain = c then o.map (· ++ [markedRule fw config mark ruleset target])
      else if target = c then o.map (· ++ ownChain config ruleset)
      else o := by
  unfold markedCommands markedRule ownChain
  by_cases hempty : isEmptyRuleset config ruleset = true
  · simp only [hempty, if_true, List.map_cons, List.map_nil, replay_readCommand, Cmd.replay_nil]
    by_cases hc : chain = c <;> cases o <;>
      simp_all [Op.chain, Op.mapRule, Op.effect, readRule, Match.read]
  · simp only [hempty, Bool.false_eq_true, if_false, List.map_append, List.map_cons, List.map_nil,
      Cmd.replay_append, replay_readCommand, Cmd.replay_nil, replay_appendRuleset]
    by_cases hc : chain = c <;> by_cases ht : target = c <;> cases o <;>
      simp_all [Op.chain, Op.mapRule, Op.effect, readRule, Match.read, rejectRule]

end Replay

section FilterTable

variable (fw : Firewall) (config : Config)

/-- INTERNAL: the chain for the packets to the router.
SOURCE: fw_iptables.c:470-517 -/
theorem replay_toRouter_router (rs : List IptablesRule) :
    Cmd.replay .filter CHAIN_TO_ROUTER ((toRouterCommands fw config).map readCommand) (some rs) =
      some (rs ++ routerChain fw config) := by
  have hne : CHAIN_TO_ROUTER ≠ CHAIN_TRUSTED_TO_ROUTER := by decide
  unfold toRouterCommands routerChain
  simp only [List.map_append, Cmd.replay_append, replay_markedCommands _ hne, List.map_cons,
    replay_readCommand, List.map_nil, Cmd.replay_nil]
  cases isEmptyRuleset config .usersToRouter
  · simp [replay_appendRuleset, CHAIN_TO_ROUTER, replay_readCommand, readRule, Match.read,
      Op.chain, Op.mapRule, Op.effect, rejectRule]
  · simp [CHAIN_TO_ROUTER, replay_readCommand, readRule, Match.read, Op.chain, Op.mapRule,
      Op.effect]

/-- INTERNAL: the chain of the trusted packets to the router.
SOURCE: fw_iptables.c:489-499 -/
theorem replay_toRouter_trusted (rs : List IptablesRule) :
    Cmd.replay .filter CHAIN_TRUSTED_TO_ROUTER ((toRouterCommands fw config).map readCommand)
      (some rs) = some (rs ++ ownChain config .trustedUsersToRouter) := by
  have hne : CHAIN_TO_ROUTER ≠ CHAIN_TRUSTED_TO_ROUTER := by decide
  unfold toRouterCommands
  simp only [List.map_append, Cmd.replay_append, replay_markedCommands _ hne, List.map_cons,
    replay_readCommand, List.map_nil, Cmd.replay_nil]
  cases isEmptyRuleset config .usersToRouter
  · simp [replay_appendRuleset, CHAIN_TO_ROUTER, CHAIN_TRUSTED_TO_ROUTER, replay_readCommand,
      Op.chain]
  · simp [CHAIN_TO_ROUTER, CHAIN_TRUSTED_TO_ROUTER, replay_readCommand, Op.chain]

/-- INTERNAL: the chain for the packets the router forwards.
SOURCE: fw_iptables.c:519-593 -/
theorem replay_toInternet_internet (rs : List IptablesRule) :
    Cmd.replay .filter CHAIN_TO_INTERNET ((toInternetCommands fw config).map readCommand)
      (some rs) = some (rs ++ internetChain fw config) := by
  have hne₁ : CHAIN_TO_INTERNET ≠ CHAIN_TRUSTED := by decide
  have hne₂ : CHAIN_TO_INTERNET ≠ CHAIN_AUTHENTICATED := by decide
  unfold toInternetCommands internetChain mssRules preauthenticatedRules
  simp only [List.map_append, Cmd.replay_append, replay_markedCommands _ hne₁,
    replay_markedCommands _ hne₂, List.map_cons, replay_readCommand, List.map_nil, Cmd.replay_nil]
  cases config.setMss <;> cases isEmptyRuleset config .preauthenticatedUsers <;>
    simp [replay_appendRuleset, CHAIN_TO_INTERNET, replay_readCommand, readRule, Match.read,
      Op.chain, Op.mapRule, Op.effect, rejectRule]

/-- INTERNAL: the chain of the trusted packets the router forwards.
SOURCE: fw_iptables.c:551-563 -/
theorem replay_toInternet_trusted (rs : List IptablesRule) :
    Cmd.replay .filter CHAIN_TRUSTED ((toInternetCommands fw config).map readCommand)
      (some rs) = some (rs ++ ownChain config .trustedUsers) := by
  have hne₁ : CHAIN_TO_INTERNET ≠ CHAIN_TRUSTED := by decide
  have hne₂ : CHAIN_TO_INTERNET ≠ CHAIN_AUTHENTICATED := by decide
  unfold toInternetCommands
  simp only [List.map_append, Cmd.replay_append, replay_markedCommands _ hne₁,
    replay_markedCommands _ hne₂, List.map_cons, replay_readCommand, List.map_nil, Cmd.replay_nil]
  cases config.setMss <;> cases isEmptyRuleset config .preauthenticatedUsers <;>
    simp [replay_appendRuleset, CHAIN_TO_INTERNET, CHAIN_TRUSTED, CHAIN_AUTHENTICATED,
      replay_readCommand, Op.chain]

/-- INTERNAL: the chain of the authenticated packets the router forwards.
SOURCE: fw_iptables.c:571-583 -/
theorem replay_toInternet_authenticated (rs : List IptablesRule) :
    Cmd.replay .filter CHAIN_AUTHENTICATED ((toInternetCommands fw config).map readCommand)
      (some rs) = some (rs ++ ownChain config .authenticatedUsers) := by
  have hne₁ : CHAIN_TO_INTERNET ≠ CHAIN_TRUSTED := by decide
  have hne₂ : CHAIN_TO_INTERNET ≠ CHAIN_AUTHENTICATED := by decide
  unfold toInternetCommands
  simp only [List.map_append, Cmd.replay_append, replay_markedCommands _ hne₁,
    replay_markedCommands _ hne₂, List.map_cons, replay_readCommand, List.map_nil, Cmd.replay_nil]
  cases config.setMss <;> cases isEmptyRuleset config .preauthenticatedUsers <;>
    simp [replay_appendRuleset, CHAIN_TO_INTERNET, CHAIN_TRUSTED, CHAIN_AUTHENTICATED,
      replay_readCommand, Op.chain]

/-- What the filter table's own chains hold after start-up. -/
structure FilterChains (fw : Firewall) (config : Config) (ts : Tables) : Prop where
  router : (ts .filter).rules CHAIN_TO_ROUTER = some (routerChain fw config)
  trustedToRouter :
    (ts .filter).rules CHAIN_TRUSTED_TO_ROUTER = some (ownChain config .trustedUsersToRouter)
  internet : (ts .filter).rules CHAIN_TO_INTERNET = some (internetChain fw config)
  trusted : (ts .filter).rules CHAIN_TRUSTED = some (ownChain config .trustedUsers)
  authenticated :
    (ts .filter).rules CHAIN_AUTHENTICATED = some (ownChain config .authenticatedUsers)

/-- INTERNAL: **the filter table's chains** after its commands have all succeeded.
SOURCE: fw_iptables.c:460-593 -/
theorem filterCommands_chains {ts us : Tables}
    (h : Cmd.applyAll ((filterCommands fw config).map readCommand) ts = some us) :
    FilterChains fw config us := by
  have hrouter := namesIn_toRouterCommands fw config
  have hinternet := namesIn_toInternetCommands fw config
  have hrules := Cmd.rules_of_applyAll h .filter
  unfold filterCommands at hrules
  simp only [List.map_append, List.map_cons, List.map_nil, Cmd.replay_append,
    replay_readCommand, Cmd.replay_nil, Op.chain, Op.mapRule, Op.effect] at hrules
  refine ⟨?_, ?_, ?_, ?_, ?_⟩
  · rw [hrules, hinternet.replay _ (by decide)]
    exact replay_toRouter_router fw config []
  · rw [hrules, hinternet.replay _ (by decide)]
    exact replay_toRouter_trusted fw config []
  · rw [hrules, hrouter.replay _ (by decide)]
    exact replay_toInternet_internet fw config []
  · rw [hrules, hrouter.replay _ (by decide)]
    exact replay_toInternet_trusted fw config []
  · rw [hrules, hrouter.replay _ (by decide)]
    exact replay_toInternet_authenticated fw config []

end FilterTable

section NatTable

variable (fw : Firewall) (config : Config)

/-- INTERNAL: the chain of the nat table.
SOURCE: fw_iptables.c:425-447 -/
theorem natCommands_chain {ts us : Tables}
    (h : Cmd.applyAll ((natCommands fw config).map readCommand) ts = some us) :
    (us .nat).rules CHAIN_OUTGOING = some (natOutgoingChain fw config) := by
  rw [Cmd.rules_of_applyAll h]
  unfold natCommands natOutgoingChain
  simp only [List.map_append, Cmd.replay_append, List.map_cons, replay_readCommand,
    replay_appendRuleset, List.map_nil, Cmd.replay_nil]
  simp [CHAIN_OUTGOING, readRule, Match.read, Op.chain, Op.mapRule, Op.effect]

theorem namesIn_natCommands :
    NamesIn [(.nat, "PREROUTING"), (.nat, CHAIN_OUTGOING)] (natCommands fw config) := by
  unfold natCommands
  refine NamesIn.append (NamesIn.append ?_ ?_) ?_
  · simp [NamesIn, Op.chain]
  · exact (namesIn_appendRuleset _ _ _ _).mono (by simp)
  · simp [NamesIn, Op.chain]

theorem namesIn_filterCommands :
    NamesIn ([(.filter, "INPUT"), (.filter, "FORWARD"), (.filter, CHAIN_TO_INTERNET),
      (.filter, CHAIN_TO_ROUTER), (.filter, CHAIN_AUTHENTICATED), (.filter, CHAIN_TRUSTED),
      (.filter, CHAIN_TRUSTED_TO_ROUTER)]) (filterCommands fw config) := by
  unfold filterCommands
  refine NamesIn.append (NamesIn.append ?_ ?_) ?_
  · simp [NamesIn, Op.chain]
  · exact (namesIn_toRouterCommands fw config).mono (by simp [toRouterPlaces])
  · exact (namesIn_toInternetCommands fw config).mono (by simp [toInternetPlaces])

end NatTable

section MangleTable

variable (fw : Firewall) (config : Config)

theorem map_trustMac (macs : List Text) :
    (macs.map (iptablesTrustMac fw)).map readCommand =
      macs.map fun mac =>
        (⟨.mangle, .append CHAIN_TRUSTED (readRule (trustRule fw mac))⟩ : IptablesCommand) := by
  rw [List.map_map]
  rfl

theorem map_blockMac (macs : List Text) :
    (macs.map (iptablesBlockMac fw)).map readCommand =
      macs.map fun mac =>
        (⟨.mangle, .append CHAIN_BLOCKED (readRule (blockRule fw mac))⟩ : IptablesCommand) := by
  rw [List.map_map]
  rfl

theorem map_allowMac (macs : List Text) :
    (macs.map iptablesAllowMac).map readCommand =
      macs.map fun mac =>
        (⟨.mangle, .insert CHAIN_BLOCKED 0 (readRule (allowRule mac))⟩ : IptablesCommand) := by
  rw [List.map_map]
  rfl

/-- What the mangle table's chains hold before traffic control is set up. -/
structure MangleChains (fw : Firewall) (config : Config) (ts : Tables) : Prop where
  trusted : (ts .mangle).rules CHAIN_TRUSTED = some (trustedChain fw config)
  blocked : (ts .mangle).rules CHAIN_BLOCKED = some (blockedChain fw config)
  incoming : (ts .mangle).rules CHAIN_INCOMING = some []
  outgoing : (ts .mangle).rules CHAIN_OUTGOING = some []
  prerouting : ∃ rs, (ts .mangle).rules "PREROUTING" =
    some ([gatewayJump config CHAIN_OUTGOING, gatewayJump config CHAIN_BLOCKED,
      gatewayJump config CHAIN_TRUSTED] ++ rs)

/-- INTERNAL: the chains with the MAC rules.
SOURCE: fw_iptables.c:379-406 -/
theorem replay_macCommands (c : String) (o : Option (List IptablesRule)) :
    Cmd.replay .mangle c ((macCommands fw config).map readCommand) o =
      if c = CHAIN_TRUSTED then o.map (· ++ trustedChain fw config)
      else if c = CHAIN_BLOCKED then
        match config.macmechanism with
        | .block => o.map (· ++ blockedChain fw config)
        | .allow => o.map fun rs =>
          ((config.maclist .allowed).map fun mac => readRule (allowRule mac)).reverse ++
            (rs ++ [blockAllRule fw])
      else o := by
  have hne : CHAIN_BLOCKED ≠ CHAIN_TRUSTED := by decide
  unfold macCommands trustedChain blockedChain
  rw [List.map_append, Cmd.replay_append, map_trustMac, Cmd.replay_map_append]
  cases config.macmechanism with
  | block =>
    dsimp only
    rw [map_blockMac, Cmd.replay_map_append]
    by_cases htrusted : c = CHAIN_TRUSTED
    · simp [htrusted, hne]
    · by_cases hblocked : c = CHAIN_BLOCKED
      · simp [hblocked, hne, hne.symm]
      · simp [htrusted, hblocked, Ne.symm htrusted, Ne.symm hblocked]
  | allow =>
    dsimp only
    rw [List.map_cons, replay_readCommand, map_allowMac, Cmd.replay_map_insert_zero]
    by_cases htrusted : c = CHAIN_TRUSTED
    · simp [htrusted, hne, Op.chain]
    · by_cases hblocked : c = CHAIN_BLOCKED
      · cases o <;> simp [hblocked, hne, hne.symm, Op.chain, Op.mapRule, Op.effect, readRule,
          blockAllRule]
      · simp [htrusted, hblocked, Ne.symm htrusted, Ne.symm hblocked, Op.chain]

/-- INTERNAL: **the mangle table's chains** after its commands have all succeeded.
SOURCE: fw_iptables.c:367-406 -/
theorem mangleCommands_chains {ts us : Tables}
    (h : Cmd.applyAll ((mangleCommands fw config).map readCommand) ts = some us) :
    MangleChains fw config us := by
  have hrules : ∀ c, (us .mangle).rules c = _ := Cmd.rules_of_applyAll h .mangle
  unfold mangleCommands mangleChainCommands at h hrules
  simp only [List.map_append, Cmd.replay_append, replay_macCommands, List.map_cons,
    List.map_nil, replay_readCommand, Cmd.replay_nil, Op.chain, Op.mapRule, Op.effect] at hrules
  refine ⟨?_, ?_, ?_, ?_, ?_⟩
  · rw [hrules]
    simp [CHAIN_TRUSTED, CHAIN_BLOCKED, CHAIN_INCOMING, CHAIN_OUTGOING]
  · rw [hrules]
    unfold blockedChain
    cases config.macmechanism <;> simp [CHAIN_TRUSTED, CHAIN_BLOCKED, CHAIN_OUTGOING]
  · rw [hrules]
    simp [CHAIN_TRUSTED, CHAIN_BLOCKED, CHAIN_INCOMING, CHAIN_OUTGOING]
  · rw [hrules]
    simp [CHAIN_TRUSTED, CHAIN_BLOCKED, CHAIN_OUTGOING]
  · -- the first insertion succeeded, so there was a chain to insert into
    obtain ⟨ms, ns, hms, hns, -⟩ : ∃ ms ns,
        Cmd.applyAll (((mangleChainCommands config).take 4).map readCommand) ts = some ms ∧
        (readCommand ⟨.mangle, .insert "PREROUTING" 0 (gatewayJump config CHAIN_OUTGOING)⟩).apply
          ms = some ns ∧ _ :=
      Cmd.applyAll_append_cons h
    have hsome : ((ms .mangle).rules "PREROUTING").isSome := Cmd.isSome_of_apply_insert hns
    rw [Cmd.rules_of_applyAll hms] at hsome
    have hnames : NamesIn [(.mangle, CHAIN_TRUSTED), (.mangle, CHAIN_BLOCKED),
        (.mangle, CHAIN_INCOMING), (.mangle, CHAIN_OUTGOING)] ((mangleChainCommands config).take 4) := by
      simp [NamesIn, mangleChainCommands, Op.chain]
    rw [hnames.replay _ (by decide)] at hsome
    obtain ⟨rs, hrs⟩ := Option.isSome_iff_exists.mp hsome
    refine ⟨rs, ?_⟩
    rw [hrules, hrs]
    simp [CHAIN_TRUSTED, CHAIN_BLOCKED, CHAIN_INCOMING, CHAIN_OUTGOING, readRule, Match.read,
      gatewayJump]

end MangleTable

/-! ## Traffic control -/

/-- A rule that sends packets through an intermediate device. -/
def IsImq (r : IptablesRule) : Prop := r.conds = [] ∧ ∃ todev, r.target = .ext (.IMQ todev)

/-- INTERNAL: commands that only append rules of one kind to a chain leave what was there
in front. -/
theorem replay_of_appends {Q : IptablesRule → Prop} {k : TableName} {c : String}
    {cmds : List IptablesCommand}
    (h : ∀ cmd ∈ cmds, cmd.table = k → cmd.op.chain = c →
      ∃ r, cmd.op = .append c r ∧ Q (readRule r)) (rs : List IptablesRule) :
    ∃ extra, Cmd.replay k c (cmds.map readCommand) (some rs) = some (rs ++ extra) ∧
      ∀ r ∈ extra, Q r := by
  induction cmds generalizing rs with
  | nil => exact ⟨[], by simp, by simp⟩
  | cons cmd cmds ih =>
    have ih' := ih fun d hd => h d (List.mem_cons_of_mem _ hd)
    rw [List.map_cons, replay_readCommand]
    split
    · next hcmd =>
      obtain ⟨r, hop, hr⟩ := h cmd (by simp) hcmd.1 hcmd.2
      obtain ⟨extra, hextra, hall⟩ := ih' (rs ++ [readRule r])
      refine ⟨readRule r :: extra, ?_, ?_⟩
      · rw [hop]
        simpa [Op.mapRule, Op.effect] using hextra
      · intro r' hr'
        rcases List.mem_cons.mp hr' with rfl | hr'
        · exact hr
        · exact hall r' hr'
    · exact ih' rs

/-- The commands of traffic control on the firewall. -/
def IsImqCommand (config : Config) (cmd : Command) : Prop :=
  ∀ c, cmd = .iptables c →
    c = ⟨.mangle, .append CHAIN_INCOMING ⟨[], .ext (.IMQ config.downloadImq)⟩⟩ ∨
    c = ⟨.mangle, .append CHAIN_OUTGOING ⟨[], .ext (.IMQ config.uploadImq)⟩⟩

theorem runs_trafficControl (fwQuiet : Bool) (config : Config) :
    Runs (IsImqCommand config) (fun _ => True)
      (if config.trafficControl then tcInitTc fwQuiet config else pure 0) := by
  split
  · refine runs_tcInitTc ?_ ?_ ?_
    · rintro cmd _ ⟨⟩
    · rintro _ ⟨⟩
      exact Or.inl rfl
    · rintro _ ⟨⟩
      exact Or.inr rfl
  · trivial

/-- INTERNAL: setting up traffic control appends device rules to the two counting chains
and leaves the other chains alone.
SOURCE: tc.c:195-223 -/
theorem trafficControl_chains (out : Outside) (fwQuiet : Bool) (config : Config) (h : Host) :
    (∀ k c, (k, c) ≠ (.mangle, CHAIN_INCOMING) → (k, c) ≠ (.mangle, CHAIN_OUTGOING) →
      ((runOn out (if config.trafficControl then tcInitTc fwQuiet config else pure 0) h).2.tables
        k).rules c = (h.tables k).rules c) ∧
    (∀ c rs, (h.tables .mangle).rules c = some rs → ∃ extra,
      ((runOn out (if config.trafficControl then tcInitTc fwQuiet config else pure 0) h).2.tables
        .mangle).rules c = some (rs ++ extra) ∧ ∀ r ∈ extra, IsImq r) := by
  obtain ⟨cmds, hcmds, happly⟩ :=
    exists_succeeded out (runs_trafficControl fwQuiet config) h
  refine ⟨?_, ?_⟩
  · intro k c hin hout
    rw [Cmd.rules_of_applyAll happly]
    refine NamesIn.replay (S := [(.mangle, CHAIN_INCOMING), (.mangle, CHAIN_OUTGOING)]) _ ?_ ?_
    · intro cmd hcmd
      rcases hcmds cmd hcmd cmd rfl with rfl | rfl <;> simp [Op.chain]
    · simp [hin, hout]
  · intro c rs hrs
    rw [Cmd.rules_of_applyAll happly, hrs]
    refine replay_of_appends ?_ rs
    intro cmd hcmd _ hchain
    rcases hcmds cmd hcmd cmd rfl with rfl | rfl
    · exact ⟨_, congrArg (fun c => Op.append c _) hchain, rfl, _, rfl⟩
    · exact ⟨_, congrArg (fun c => Op.append c _) hchain, rfl, _, rfl⟩

/-! ## The whole of iptables_fw_init -/

/-- What the portal's chains hold after start-up. -/
structure ChainsReady (fw : Firewall) (config : Config) (ts : Tables) : Prop where
  trusted : (ts .mangle).rules CHAIN_TRUSTED = some (trustedChain fw config)
  blocked : (ts .mangle).rules CHAIN_BLOCKED = some (blockedChain fw config)
  incoming : ∃ rs, (ts .mangle).rules CHAIN_INCOMING = some rs ∧ ∀ r ∈ rs, IsImq r
  outgoing : ∃ rs, (ts .mangle).rules CHAIN_OUTGOING = some rs ∧ ∀ r ∈ rs, IsImq r
  prerouting : ∃ rs, (ts .mangle).rules "PREROUTING" =
    some ([gatewayJump config CHAIN_OUTGOING, gatewayJump config CHAIN_BLOCKED,
      gatewayJump config CHAIN_TRUSTED] ++ rs)
  nat : (ts .nat).rules CHAIN_OUTGOING = some (natOutgoingChain fw config)
  filter : FilterChains fw config ts

/-- INTERNAL: the tables after the four stages of start-up.
SOURCE: fw_iptables.c:367-593 -/
theorem chainsReady_of_stages {t₀ t₁ t₂ t₃ t₄ : Tables}
    (hmangle : Cmd.applyAll ((mangleCommands fw config).map readCommand) t₀ = some t₁)
    (htc : ∀ k c, (k, c) ≠ (.mangle, CHAIN_INCOMING) → (k, c) ≠ (.mangle, CHAIN_OUTGOING) →
      (t₂ k).rules c = (t₁ k).rules c)
    (htcMangle : ∀ c rs, (t₁ .mangle).rules c = some rs →
      ∃ extra, (t₂ .mangle).rules c = some (rs ++ extra) ∧ ∀ r ∈ extra, IsImq r)
    (hnat : Cmd.applyAll ((natCommands fw config).map readCommand) t₂ = some t₃)
    (hfilter : Cmd.applyAll ((filterCommands fw config).map readCommand) t₃ = some t₄) :
    ChainsReady fw config t₄ := by
  have hchains := mangleCommands_chains fw config hmangle
  have hlater : ∀ c, (t₄ .mangle).rules c = (t₂ .mangle).rules c := by
    intro c
    rw [Cmd.rules_of_applyAll hfilter, (namesIn_filterCommands fw config).replay _ (by simp),
      Cmd.rules_of_applyAll hnat, (namesIn_natCommands fw config).replay _ (by simp)]
  have hkept : ∀ c, c ≠ CHAIN_INCOMING → c ≠ CHAIN_OUTGOING →
      (t₄ .mangle).rules c = (t₁ .mangle).rules c := by
    intro c hin hout
    rw [hlater, htc .mangle c (by simpa using hin) (by simpa using hout)]
  refine ⟨?_, ?_, ?_, ?_, ?_, ?_, filterCommands_chains fw config hfilter⟩
  · rw [hkept _ (by decide) (by decide), hchains.trusted]
  · rw [hkept _ (by decide) (by decide), hchains.blocked]
  · obtain ⟨extra, hextra, hall⟩ := htcMangle _ _ hchains.incoming
    exact ⟨extra, by rw [hlater, hextra, List.nil_append], hall⟩
  · obtain ⟨extra, hextra, hall⟩ := htcMangle _ _ hchains.outgoing
    exact ⟨extra, by rw [hlater, hextra, List.nil_append], hall⟩
  · obtain ⟨rs, hrs⟩ := hchains.prerouting
    exact ⟨rs, by rw [hkept _ (by decide) (by decide), hrs]⟩
  · rw [Cmd.rules_of_applyAll hfilter, (namesIn_filterCommands fw config).replay _ (by simp)]
    exact natCommands_chain fw config hnat

/-- INTERNAL: the chains after the tables are set up, when no error was logged.
SOURCE: fw_iptables.c:367-605 -/
theorem fwInitTables_chains {h : Host} (hquiet : fw.fwQuiet = false)
    (hclean : (runOn out (iptablesFwInitTables fw config) h).2.clean) :
    ChainsReady fw config (runOn out (iptablesFwInitTables fw config) h).2.tables := by
  simp only [runOn, iptablesFwInitTables, Prog.run_bind, Prog.pure_eq, Prog.run_done, hquiet]
    at hclean ⊢
  -- nothing was logged at the end, so nothing was logged on the way
  have hclean₃ := clean_of_run hclean
  have hclean₂ := clean_of_run hclean₃
  have htc := trafficControl_chains out false config
    (Prog.run (Host.answer out) (iptablesDoCommands false (mangleCommands fw config)) h).2
  exact chainsReady_of_stages (applyAll_of_clean (clean_of_run hclean₂)).1 htc.1 htc.2
    (applyAll_of_clean hclean₃).1 (applyAll_of_clean hclean).1

/-- INTERNAL: **start-up**: a run of `iptables_fw_init` during which no error was logged
leaves the chains ready, and the marks too when it returns 0.
SOURCE: fw_iptables.c:314-605 -/
theorem fwInit_ready {h : Host} (hclean : (runOn out (iptablesFwInit config fw) h).2.clean) :
    ChainsReady (runOn out (iptablesFwInit config fw) h).1.2 config
        (runOn out (iptablesFwInit config fw) h).2.tables ∧
      (runOn out (iptablesFwInit config fw) h).1.2.fwQuiet = false ∧
      ((runOn out (iptablesFwInit config fw) h).1.1 = 0 →
        MarksReady config (runOn out (iptablesFwInit config fw) h).1.2) := by
  have hmarks := (fwInitMarks_result config fw).result out h
  simp only [runOn, iptablesFwInit, Prog.run_bind, Prog.pure_eq, Prog.run_done] at hclean hmarks ⊢
  refine ⟨fwInitTables_chains hmarks.1 hclean, hmarks.1, fun hrc => hmarks.2 ?_⟩
  exact (BitVec.or_eq_zero_iff.mp hrc).1

/-! ## A machine to start on -/

/-- A machine that lets every command pass and prints nothing. -/
def obligingMachine : Outside where
  status _ _ := 0
  line _ _ _ := []

/-- A router with the built-in chains and nothing in them. -/
def emptyRouter : Host where
  tables k :=
    match k with
    | .mangle => ⟨[("PREROUTING", []), ("POSTROUTING", [])], by decide⟩
    | .nat => ⟨[("PREROUTING", [])], by decide⟩
    | .filter => ⟨[("INPUT", []), ("FORWARD", [])], by decide⟩

end WifiCat.Analysis
