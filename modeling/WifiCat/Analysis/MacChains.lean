import WifiCat.Analysis.MacAddresses
import WifiCat.Analysis.Startup
import WifiCat.Model.Daemon

/-!
# The MAC chains and the MAC lists

Each of the three lists has its rules in a chain of the mangle table: the rules of the
list in some order, and for the allowed list the catch-all rule behind them
(`MacChains`).  The six control commands change a list and its chain alike.
-/

set_option autoImplicit false

namespace WifiCat.Analysis

open CommandProgram Netfilter Scan

variable {out : Outside} {fw : Firewall} {config : Config} {ts us : Tables} {l : MacListName}

/-! ## A list and its chain -/

/-- The rule of an address of a list.
SOURCE: fw_iptables.c:281, 293, 305 -/
def macRule (fw : Firewall) : MacListName → Text → IptablesRule
  | .trusted => trustRule fw
  | .blocked => blockRule fw
  | .allowed => allowRule

/-- The chain with the rules of a list. -/
def macChain : MacListName → String
  | .trusted => CHAIN_TRUSTED
  | _ => CHAIN_BLOCKED

/-- What stands behind the rules of a list.
SOURCE: fw_iptables.c:395 -/
def macTail (fw : Firewall) : MacListName → List IptablesRule
  | .allowed => [blockAllRule fw]
  | _ => []

/-- The rules of a list's addresses, as `iptables` lists them. -/
def macRules (fw : Firewall) (l : MacListName) (macs : List Text) : List IptablesRule :=
  macs.map fun mac => readRule (macRule fw l mac)

/-- Every list in use has its rules in its chain. -/
def MacChains (fw : Firewall) (config : Config) (ts : Tables) : Prop :=
  ∀ l, config.usesList l = true → ∃ rules,
    (ts .mangle).rules (macChain l) = some (rules ++ macTail fw l) ∧
      rules.Perm (macRules fw l (config.maclist l))

/-- INTERNAL: lists that are in use together have different chains. -/
theorem macChain_ne {l' : MacListName} (hl : config.usesList l = true)
    (hl' : config.usesList l' = true) (hne : l ≠ l') : macChain l ≠ macChain l' := by
  unfold Config.usesList at hl hl'
  cases l <;> cases l' <;> simp [MacListName.mechanism, macChain, CHAIN_TRUSTED, CHAIN_BLOCKED]
    at hl hl' hne ⊢
  · rw [← hl] at hl'
    cases hl'
  · rw [← hl] at hl'
    cases hl'

/-- INTERNAL: the chains after start-up. -/
theorem ChainsReady.macChains (h : ChainsReady fw config ts) : MacChains fw config ts := by
  intro l hl
  have hblocked := h.blocked
  unfold blockedChain at hblocked
  cases l with
  | trusted =>
    exact ⟨_, h.trusted.trans (congrArg some (List.append_nil _).symm), List.Perm.refl _⟩
  | blocked =>
    have hmech : MacMechanism.block = config.macmechanism := of_decide_eq_true hl
    rw [← hmech] at hblocked
    exact ⟨_, hblocked.trans (congrArg some (List.append_nil _).symm), List.Perm.refl _⟩
  | allowed =>
    have hmech : MacMechanism.allow = config.macmechanism := of_decide_eq_true hl
    rw [← hmech] at hblocked
    exact ⟨_, hblocked, List.reverse_perm _⟩

theorem MacChains.of_rules_eq (h : MacChains fw config ts)
    (heq : ∀ l, (us .mangle).rules (macChain l) = (ts .mangle).rules (macChain l)) :
    MacChains fw config us := by
  intro l hl
  rw [heq]
  exact h l hl

/-- INTERNAL: **an edit of one list and its chain** keeps the agreement. -/
theorem MacChains.edit {cmd : IptablesCommand} {macs : List Text} (h : MacChains fw config ts)
    (hl : config.usesList l = true) (hcmd : iptables cmd ts = some us)
    (hplace : cmd.table = .mangle ∧ cmd.op.chain = macChain l)
    (heffect : ∀ rules, rules.Perm (macRules fw l (config.maclist l)) → ∃ rules',
      (cmd.op.mapRule readRule).effect (some (rules ++ macTail fw l)) =
        some (rules' ++ macTail fw l) ∧ rules'.Perm (macRules fw l macs)) :
    MacChains fw (config.setMaclist l macs) us := by
  intro l' hl'
  replace hl' : config.usesList l' = true := hl'
  by_cases hne : l' = l
  · subst hne
    obtain ⟨rules, hrules, hperm⟩ := h l' hl
    obtain ⟨rules', heff, hperm'⟩ := heffect rules hperm
    refine ⟨rules', ?_, ?_⟩
    · rw [rules_of_iptables hcmd, if_pos hplace, hrules, heff]
    · simpa [Config.setMaclist] using hperm'
  · obtain ⟨rules, hrules, hperm⟩ := h l' hl'
    refine ⟨rules, ?_, ?_⟩
    · rw [rules_of_iptables hcmd, if_neg, hrules]
      rintro ⟨-, hchain⟩
      exact macChain_ne hl' hl hne (hchain.symm.trans hplace.2)
    · simpa [Config.setMaclist, Function.update_of_ne hne] using hperm

/-! ## The list functions -/

theorem refused_of_eq {config : Config} {r : ℤ × Config} {n : ℤ} (hn : n ≠ 0)
    (h : r = (n, config)) : r.1 ≠ 0 ∧ r.2 = config := by
  subst h
  exact ⟨hn, rfl⟩

/-- INTERNAL: what the `add_to_*` functions do.
SOURCE: conf.c:1452-1484 -/
theorem addToMacList_cases (l : MacListName) (mac : Text) (config : Config) :
    ((addToMacList l mac config).1 ≠ 0 ∧ (addToMacList l mac config).2 = config) ∨
    (checkMacFormat mac = true ∧ config.usesList l = true ∧ addToMacList l mac config =
      (0, config.setMaclist l (macCopy mac :: config.maclist l))) := by
  rcases addToMacList_outcomes l mac config with
    ⟨-, h⟩ | ⟨-, h⟩ | ⟨-, -, -, h⟩ | ⟨hcheck, huses, -, h⟩
  · exact Or.inl (refused_of_eq (by decide) h)
  · exact Or.inl (refused_of_eq (by decide) h)
  · exact Or.inl (refused_of_eq (by decide) h)
  · exact Or.inr ⟨hcheck, huses, h⟩

/-- INTERNAL: what the `remove_from_*` functions do.
SOURCE: conf.c:1490-1531 -/
theorem removeFromMacList_cases (l : MacListName) (mac : Text) (config : Config) :
    ((removeFromMacList l mac config).1 ≠ 0 ∧ (removeFromMacList l mac config).2 = config) ∨
    (checkMacFormat mac = true ∧ config.usesList l = true ∧ ∃ m macs₁ macs₂,
      config.maclist l = macs₁ ++ m :: macs₂ ∧ sameCase m (macCopy mac) = true ∧
      removeFromMacList l mac config = (0, config.setMaclist l (macs₁ ++ macs₂))) := by
  rcases removeFromMacList_outcomes l mac config with
    ⟨-, h⟩ | ⟨-, h⟩ | ⟨-, -, -, h⟩ | ⟨hcheck, huses, h⟩
  · exact Or.inl (refused_of_eq (by decide) h)
  · exact Or.inl (refused_of_eq (by decide) h)
  · exact Or.inl (refused_of_eq (by decide) h)
  · exact Or.inr ⟨hcheck, huses, h⟩

/-! ## The six commands -/

/-- The list a control command is about. -/
def requestListName : MacRequest → MacListName
  | .block | .unblock => .blocked
  | .allow | .unallow => .allowed
  | .trust | .untrust => .trusted

/-- The list function of a request. -/
def requestList : MacRequest → Text → Config → ℤ × Config
  | .block => addToBlockedMacList
  | .unblock => removeFromBlockedMacList
  | .allow => addToAllowedMacList
  | .unallow => removeFromAllowedMacList
  | .trust => addToTrustedMacList
  | .untrust => removeFromTrustedMacList

/-- The firewall command of a request. -/
def requestCommand (fw : Firewall) : MacRequest → Text → IptablesCommand
  | .block => iptablesBlockMac fw
  | .unblock => iptablesUnblockMac fw
  | .allow => iptablesAllowMac
  | .unallow => iptablesUnallowMac
  | .trust => iptablesTrustMac fw
  | .untrust => iptablesUntrustMac fw

/-- INTERNAL: the six handlers are one. -/
theorem handle_eq (fw : Firewall) (request : MacRequest) (arg : Text) (config : Config) :
    request.handle fw arg config =
      ndsctlMac (requestList request) (requestCommand fw request) fw.fwQuiet arg config := by
  cases request <;> rfl

/-- INTERNAL: **what the six list functions do**: refuse and change nothing, or change
their list, with no address in it that was not there or given.
SOURCE: conf.c:1452-1531, 1560-1650, 1676-1766 -/
theorem requestList_cases (request : MacRequest) (arg : Text) (config : Config) :
    ((requestList request arg config).1 ≠ 0 ∧ (requestList request arg config).2 = config) ∨
    (checkMacFormat arg = true ∧ config.usesList (requestListName request) = true ∧ ∃ macs,
      macs ≠ config.maclist (requestListName request) ∧
      (∀ mac ∈ macs, mac = macCopy arg ∨ mac ∈ config.maclist (requestListName request)) ∧
      requestList request arg config =
        (0, config.setMaclist (requestListName request) macs)) := by
  generalize hl : requestListName request = l
  have hop : requestList request = addToMacList l ∨ requestList request = removeFromMacList l := by
    subst hl
    cases request <;> first | exact Or.inl rfl | exact Or.inr rfl
  rcases hop with hop | hop
  · rw [hop]
    refine (addToMacList_cases l arg config).imp_right ?_
    rintro ⟨hcheck, huses, hadd⟩
    refine ⟨hcheck, huses, _, ?_, ?_, hadd⟩
    · exact List.cons_ne_self _ _
    · simp
  · rw [hop]
    refine (removeFromMacList_cases l arg config).imp_right ?_
    rintro ⟨hcheck, huses, m, macs₁, macs₂, hlist, -, hremove⟩
    refine ⟨hcheck, huses, _, ?_, ?_, hremove⟩
    · intro heq
      have hlength := congrArg List.length (heq.trans hlist)
      simp at hlength
    · intro mac hmac
      rw [hlist]
      rcases List.mem_append.mp hmac with hmac | hmac <;> simp [hmac]

/-- INTERNAL: a list function changes nothing of the configuration but its list. -/
theorem requestList_config (request : MacRequest) (arg : Text) (config : Config) :
    ∃ l macs, (requestList request arg config).2 = config.setMaclist l macs := by
  rcases requestList_cases request arg config with ⟨-, h⟩ | ⟨-, -, macs, -, -, h⟩
  · exact ⟨.trusted, config.maclist .trusted, by simp [h, Config.setMaclist]⟩
  · exact ⟨_, macs, by rw [h]⟩

/-- INTERNAL: what a request names, and how it leaves the configuration.
SOURCE: ndsctl_thread.c:346-458 -/
theorem runs_handle {K : Command → Prop} {request : MacRequest} {arg : Text}
    (hK : K (.iptables (requestCommand fw request arg))) :
    Runs K (fun r => r.2 = (requestList request arg config).2)
      (request.handle fw arg config) := by
  rw [handle_eq]
  unfold ndsctlMac
  dsimp only
  split
  · exact (runs_iptablesDoCommand hK).bind fun _ _ => rfl
  · rfl

/-- INTERNAL: a rule of an address that `iptables` can read is of a MAC address. -/
theorem isMacAddress_of_readable {mac : Text} (h : readable (macRule fw l mac) = true) :
    isMacAddress mac = true := by
  unfold readable at h
  rw [Bool.and_eq_true] at h
  cases l <;> simpa [macRule, trustRule, blockRule, allowRule] using h.1

/-- INTERNAL: **what a control command does** on a machine that logged nothing.
SOURCE: ndsctl_thread.c:346-458 -/
theorem ndsctlMac_run {listOp : Text → Config → ℤ × Config} {command : Text → IptablesCommand}
    {arg : Text} {h : Host}
    (hclean : (runOn out (ndsctlMac listOp command false arg config) h).2.clean) :
    ((listOp arg config).1 ≠ 0 ∧
      runOn out (ndsctlMac listOp command false arg config) h = ((.No, (listOp arg config).2), h)) ∨
    ((listOp arg config).1 = 0 ∧
      (runOn out (ndsctlMac listOp command false arg config) h).1.2 = (listOp arg config).2 ∧
      iptables (command arg) h.tables =
        some (runOn out (ndsctlMac listOp command false arg config) h).2.tables) := by
  unfold ndsctlMac at hclean ⊢
  by_cases hzero : (listOp arg config).1 = 0
  · simp only [hzero, if_true, runOn, Prog.run_bind, Prog.pure_eq, Prog.run_done] at hclean ⊢
    exact Or.inr ⟨trivial, trivial, (iptables_of_clean hclean).2⟩
  · refine Or.inl ⟨hzero, ?_⟩
    simp [hzero, runOn]

/-- INTERNAL: a command that adds an address.
SOURCE: ndsctl_thread.c:346-363, 384-401, 422-439 -/
theorem macChains_add {command : Text → IptablesCommand} {arg : Text} {h : Host}
    (hchains : MacChains fw config h.tables)
    (hplace : (command arg).table = .mangle ∧ (command arg).op.chain = macChain l)
    (hrule : (command arg).op.rule = some (macRule fw l arg))
    (heffect : ∀ rules, ∃ rules', ((command arg).op.mapRule readRule).effect
        (some (rules ++ macTail fw l)) = some (rules' ++ macTail fw l) ∧
      rules'.Perm (readRule (macRule fw l arg) :: rules))
    (hclean : (runOn out (ndsctlMac (addToMacList l) command false arg config) h).2.clean) :
    MacChains fw (runOn out (ndsctlMac (addToMacList l) command false arg config) h).1.2
      (runOn out (ndsctlMac (addToMacList l) command false arg config) h).2.tables := by
  rcases ndsctlMac_run hclean with ⟨hrc, hrun⟩ | ⟨hrc, hconfig, hcmd⟩
  · rcases addToMacList_cases l arg config with ⟨-, hsame⟩ | ⟨-, -, hadd⟩
    · rw [hrun, hsame]
      exact hchains
    · rw [hadd] at hrc
      exact absurd rfl hrc
  · rcases addToMacList_cases l arg config with ⟨hne, -⟩ | ⟨-, huses, hadd⟩
    · exact absurd hrc hne
    · have hmac : isMacAddress arg = true := by
        have hread := (iptables_eq_some hcmd).1
        rw [hrule] at hread
        exact isMacAddress_of_readable hread
      rw [hconfig, hadd, macCopy_of_isMacAddress hmac]
      refine hchains.edit huses hcmd hplace fun rules hperm => ?_
      obtain ⟨rules', heff, hperm'⟩ := heffect rules
      exact ⟨rules', heff, hperm'.trans (hperm.cons _)⟩

/-- INTERNAL: a command that removes an address.
SOURCE: ndsctl_thread.c:365-382, 403-420, 441-458 -/
theorem macChains_remove {command : Text → IptablesCommand} {arg : Text} {h : Host}
    (hchains : MacChains fw config h.tables)
    (hcommand : command arg = ⟨.mangle, .delete (macChain l) (macRule fw l arg)⟩)
    (hclean : (runOn out (ndsctlMac (removeFromMacList l) command false arg config) h).2.clean) :
    MacChains fw (runOn out (ndsctlMac (removeFromMacList l) command false arg config) h).1.2
      (runOn out (ndsctlMac (removeFromMacList l) command false arg config) h).2.tables := by
  rcases ndsctlMac_run hclean with ⟨hrc, hrun⟩ | ⟨hrc, hconfig, hcmd⟩
  · rcases removeFromMacList_cases l arg config with ⟨-, hsame⟩ | ⟨-, -, _, _, _, -, -, hremove⟩
    · rw [hrun, hsame]
      exact hchains
    · rw [hremove] at hrc
      exact absurd rfl hrc
  · rcases removeFromMacList_cases l arg config with
      ⟨hne, -⟩ | ⟨-, huses, m, macs₁, macs₂, hlist, hsame, hremove⟩
    · exact absurd hrc hne
    · rw [hcommand] at hcmd
      have hmac : isMacAddress arg = true :=
        isMacAddress_of_readable (iptables_eq_some hcmd).1
      rw [macCopy_of_isMacAddress hmac] at hsame
      -- the rule the deletion names is the rule of the address that left the list
      have hrule : readRule (macRule fw l m) = readRule (macRule fw l arg) := by
        cases l <;>
          simp [macRule, trustRule, blockRule, allowRule, readRule, Match.read,
            readMac_of_sameCase hsame]
      rw [hconfig, hremove]
      refine hchains.edit huses hcmd ⟨rfl, rfl⟩ fun rules hperm => ?_
      have hfront : rules.Perm (readRule (macRule fw l arg) :: macRules fw l (macs₁ ++ macs₂)) := by
        refine hperm.trans ?_
        rw [hlist, ← hrule]
        exact List.perm_middle.map fun mac => readRule (macRule fw l mac)
      have hmem : readRule (macRule fw l arg) ∈ rules := hfront.mem_iff.mpr (by simp)
      refine ⟨rules.erase (readRule (macRule fw l arg)), ?_, ?_⟩
      · simp [Op.mapRule, Op.effect, List.erase_append_left _ hmem]
      · simpa using hfront.erase (readRule (macRule fw l arg))

/-- INTERNAL: **the six commands keep the chains and the lists in agreement**.
SOURCE: ndsctl_thread.c:346-458 -/
theorem macChains_handle {request : MacRequest} {arg : Text} {h : Host}
    (hquiet : fw.fwQuiet = false) (hchains : MacChains fw config h.tables)
    (hclean : (runOn out (request.handle fw arg config) h).2.clean) :
    MacChains fw (runOn out (request.handle fw arg config) h).1.2
      (runOn out (request.handle fw arg config) h).2.tables := by
  cases request with
  | block =>
    simp only [MacRequest.handle, ndsctlBlock, addToBlockedMacList, hquiet] at hclean ⊢
    refine macChains_add hchains ⟨rfl, rfl⟩ rfl (fun rules => ?_) hclean
    exact ⟨rules ++ [readRule (blockRule fw arg)], by simp [iptablesBlockMac, Op.mapRule,
      Op.effect, macTail], List.perm_append_singleton _ _⟩
  | unblock =>
    simp only [MacRequest.handle, ndsctlUnblock, removeFromBlockedMacList, hquiet] at hclean ⊢
    exact macChains_remove hchains rfl hclean
  | allow =>
    simp only [MacRequest.handle, ndsctlAllow, addToAllowedMacList, hquiet] at hclean ⊢
    refine macChains_add hchains ⟨rfl, rfl⟩ rfl (fun rules => ?_) hclean
    exact ⟨readRule (allowRule arg) :: rules, by simp [iptablesAllowMac, Op.mapRule,
      Op.effect], List.Perm.refl _⟩
  | unallow =>
    simp only [MacRequest.handle, ndsctlUnallow, removeFromAllowedMacList, hquiet] at hclean ⊢
    exact macChains_remove hchains rfl hclean
  | trust =>
    simp only [MacRequest.handle, ndsctlTrust, addToTrustedMacList, hquiet] at hclean ⊢
    refine macChains_add hchains ⟨rfl, rfl⟩ rfl (fun rules => ?_) hclean
    exact ⟨rules ++ [readRule (trustRule fw arg)], by simp [iptablesTrustMac, Op.mapRule,
      Op.effect, macTail], List.perm_append_singleton _ _⟩
  | untrust =>
    simp only [MacRequest.handle, ndsctlUntrust, removeFromTrustedMacList, hquiet] at hclean ⊢
    exact macChains_remove hchains rfl hclean

end WifiCat.Analysis
