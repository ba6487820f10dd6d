import WifiCat.Analysis.AddressSources

/-!
# The addresses in commands

A command line goes through `/bin/sh`, so an address in it should be an address and
nothing else.  `check_ip_format` and `check_mac_format` stop reading after the address:
what they accept may have a tail, and the copies the lists keep are only cut to fifteen
characters (an IP address) or not used at all (the argument of a control command).
-/

set_option autoImplicit false

namespace WifiCat.Analysis

open CommandProgram Netfilter Scan

/-! ## Well-formed addresses -/

/-- One to three decimal digits of a value below 256. -/
def isOctet (w : Text) : Bool :=
  1 ≤ w.length && w.length ≤ 3 && w.all Char.isDigit && Nat.ofDigitChars 10 w 0 < 256

/-- Four octets, separated by dots. -/
def isDottedQuad (ip : Text) : Bool :=
  (fields '.' ip).length == 4 && (fields '.' ip).all isOctet

/-- A character of `[0-9A-Fa-f.:]`. -/
def isAddressChar (c : Char) : Bool := isHexDigit c || c == '.' || c == ':'

/-- A dotted quad or a MAC address, and nothing else. -/
def isAddress (t : Text) : Bool := t.all isAddressChar && (isDottedQuad t || isMacAddress t)

theorem isAddress_of_isDottedQuad {ip : Text} (h : isDottedQuad ip = true) :
    isAddress ip = true := by
  have hfields := h
  unfold isDottedQuad at hfields
  simp only [Bool.and_eq_true, beq_iff_eq, List.all_eq_true] at hfields
  have hchars : ∀ c ∈ ip, isAddressChar c = true := by
    intro c hc
    unfold isAddressChar
    by_cases hdot : c = '.'
    · simp [hdot]
    · obtain ⟨w, hw, hcw⟩ := mem_fields hc hdot
      have hoctet := hfields.2 w hw
      unfold isOctet at hoctet
      simp only [Bool.and_eq_true, List.all_eq_true] at hoctet
      have hdigit := hoctet.1.2 c hcw
      simp only [Char.isDigit, Bool.and_eq_true, decide_eq_true_eq] at hdigit
      have hhex : isHexDigit c = true := by
        simp only [isHexDigit, Bool.or_eq_true, Bool.and_eq_true, decide_eq_true_eq]
        exact Or.inl (Or.inl hdigit)
      simp [hhex]
  simp only [isAddress, h, Bool.true_or, Bool.and_true, List.all_eq_true]
  exact hchars

theorem isAddress_of_isMacAddress {mac : Text} (h : isMacAddress mac = true) :
    isAddress mac = true := by
  obtain ⟨hsix, hoctet⟩ := isMacAddress_octets h
  have hchars := (six_octets hsix hoctet).2
  simp only [isAddress, h, Bool.or_true, Bool.and_true, List.all_eq_true]
  intro c hc
  have hc' := hchars c hc
  simp only [isMacChar, isAddressChar, Bool.or_eq_true] at hc' ⊢
  rcases hc' with hc' | hc'
  · exact Or.inl (Or.inl hc')
  · exact Or.inr hc'

/-- INTERNAL: what the resolver answers is printed as a dotted quad that is kept whole.
SOURCE: conf.c:1433-1436 -/
theorem isDottedQuad_inetNtoa (a : InAddr) : isDottedQuad ((inetNtoa a).take 15) = true := by
  have hdigits : ∀ n : Fin 256, isOctet (Nat.toDigits 10 n) = true ∧ '.' ∉ Nat.toDigits 10 n ∧
      (Nat.toDigits 10 n).length ≤ 3 := by
    decide +kernel
  obtain ⟨a₁, a₂, a₃, a₄⟩ := a
  obtain ⟨h₁, hdot₁, hlen₁⟩ := hdigits a₁
  obtain ⟨h₂, hdot₂, hlen₂⟩ := hdigits a₂
  obtain ⟨h₃, hdot₃, hlen₃⟩ := hdigits a₃
  obtain ⟨h₄, hdot₄, hlen₄⟩ := hdigits a₄
  have hwhole : (inetNtoa (a₁, a₂, a₃, a₄)).take 15 = inetNtoa (a₁, a₂, a₃, a₄) := by
    refine List.take_of_length_le ?_
    simp only [inetNtoa, List.length_append, List.length_cons]
    omega
  rw [hwhole]
  unfold isDottedQuad inetNtoa
  simp only [List.append_assoc, List.cons_append]
  rw [fields_append_sep hdot₁, fields_append_sep hdot₂, fields_append_sep hdot₃,
    fields_of_not_mem hdot₄]
  simp [h₁, h₂, h₃, h₄]

/-! ## Addresses in rules -/

/-- The address a condition tests. -/
def addressText : Match → Option Text
  | .source mask => some mask
  | .destination mask => some mask
  | .macSource mac => some mac
  | _ => none

/-- An address the configuration file itself writes into rules: the range of the gateway
and the masks of the rulesets. -/
def ConfigText (config : Config) (t : Text) : Prop :=
  t = config.gwIprange ∨ ∃ name, ∃ rule ∈ (config.rulesets name).rules, rule.mask = some t

/-- The addresses of a rule are the configuration file's, or well formed. -/
def SafeRule (config : Config) (r : IptablesRule) : Prop :=
  ∀ m ∈ r.conds, ∀ t, addressText m = some t → ConfigText config t ∨ isAddress t = true

/-- The addresses of a command are the configuration file's, or well formed. -/
def SafeCommand (config : Config) (cmd : Command) : Prop :=
  ∀ c, cmd = .iptables c → ∀ r, c.op.rule = some r → SafeRule config r

variable {base config : Config} {fw : Firewall}

theorem safeCommand_of_rule {c : IptablesCommand} {r : IptablesRule} (hrule : c.op.rule = some r)
    (hr : SafeRule base r) : SafeCommand base (.iptables c) := by
  rintro _ ⟨⟩ r' hr'
  rw [hrule] at hr'
  cases hr'
  exact hr

theorem safeCommand_of_none {c : IptablesCommand} (hrule : c.op.rule = none) :
    SafeCommand base (.iptables c) := by
  rintro _ ⟨⟩ r' hr'
  rw [hrule] at hr'
  cases hr'

theorem safeRule_mac {mac : Text} (hmac : isMacAddress mac = true)
    (target : Target Verdict Extension) : SafeRule base ⟨[.macSource mac], target⟩ := by
  intro m hm t ht
  rw [List.mem_singleton.mp hm] at ht
  cases ht
  exact Or.inr (isAddress_of_isMacAddress hmac)

theorem safeRule_noAddress {r : IptablesRule} (h : ∀ m ∈ r.conds, addressText m = none) :
    SafeRule base r := by
  intro m hm t ht
  rw [h m hm] at ht
  cases ht

/-! ## The configuration at start-up -/

/-- What the server's document keeps: `base` is the configuration file's. -/
structure SafeConfig (base config : Config) : Prop where
  gwIprange : config.gwIprange = base.gwIprange
  mechanism : config.macmechanism = base.macmechanism
  macs : ∀ l, ∀ mac ∈ config.maclist l, isMacAddress mac = true
  freeIps : ∀ ip ∈ config.freeIpList, isDottedQuad ip = true
  masks : ∀ name, ∀ rule ∈ (config.rulesets name).rules, ∀ t, rule.mask = some t →
    ConfigText base t ∨ isAddress t = true

/-- The address of an entry is well formed where the validator accepts it.
SOURCE: conf.c:1384-1421, 1452-1484, 1560-1598 -/
def WellFormedEntry (config : Config) : ServerEntry → Prop
  | .freeIP ip => checkIpFormat ip = true → isDottedQuad (ip.take 15) = true
  | .freeDomain _ => True
  | .trustedMAC mac => checkMacFormat mac = true → isMacAddress (macCopy mac) = true
  | .blockedMAC mac => checkMacFormat mac = true → config.usesList .blocked = true →
      isMacAddress (macCopy mac) = true

theorem SafeConfig.addToFreeIpList (hsafe : SafeConfig base config) {ip : Text}
    (hip : checkIpFormat ip = true → isDottedQuad (ip.take 15) = true) :
    SafeConfig base (addToFreeIpList ip config).2 := by
  unfold WifiCat.addToFreeIpList
  split
  · exact hsafe
  · next hcheck =>
    dsimp only
    split
    · exact hsafe
    · refine ⟨hsafe.gwIprange, hsafe.mechanism, hsafe.macs, ?_, hsafe.masks⟩
      intro t ht
      rcases List.mem_cons.mp ht with rfl | ht
      · exact hip (by simpa using hcheck)
      · exact hsafe.freeIps t ht

theorem SafeConfig.addToMacList (hsafe : SafeConfig base config) {l : MacListName} {mac : Text}
    (hmac : checkMacFormat mac = true → config.usesList l = true →
      isMacAddress (macCopy mac) = true) :
    SafeConfig base (addToMacList l mac config).2 := by
  unfold WifiCat.addToMacList
  split
  · exact hsafe
  · next hcheck =>
    split
    · exact hsafe
    · next huses =>
      dsimp only
      split
      · exact hsafe
      · refine ⟨hsafe.gwIprange, hsafe.mechanism, ?_, hsafe.freeIps, hsafe.masks⟩
        intro l' m hm
        by_cases hl : l' = l
        · subst hl
          simp only [Config.setMaclist, Function.update_self, List.mem_cons] at hm
          rcases hm with rfl | hm
          · exact hmac (by simpa using hcheck) (by simpa using huses)
          · exact hsafe.macs l' m hm
        · exact hsafe.macs l' m
            (by simpa [Config.setMaclist, Function.update_of_ne hl] using hm)

/-- INTERNAL: **a document of well-formed entries** keeps every list well formed.
SOURCE: conf.c:896-1000 -/
theorem SafeConfig.document (hsafe : SafeConfig base config) (document : List ServerEntry)
    (hdocument : ∀ e ∈ document, WellFormedEntry base e) :
    SafeConfig base (document.foldl ServerEntry.apply config) := by
  induction document generalizing config with
  | nil => exact hsafe
  | cons e document ih =>
    refine ih ?_ fun e' he' => hdocument e' (List.mem_cons_of_mem _ he')
    have he := hdocument e (by simp)
    cases e with
    | freeIP ip => exact hsafe.addToFreeIpList he
    | freeDomain answer =>
      cases answer with
      | none => exact hsafe
      | some addrs =>
        exact Run.invariant_foldl (I := SafeConfig base)
          (fun c a hc => hc.addToFreeIpList fun _ => isDottedQuad_inetNtoa a) addrs hsafe
    | trustedMAC mac => exact hsafe.addToMacList fun hcheck _ => he hcheck
    | blockedMAC mac =>
      refine hsafe.addToMacList fun hcheck huses => he hcheck ?_
      unfold Config.usesList at huses ⊢
      rwa [hsafe.mechanism] at huses

/-- INTERNAL: the rules of the free IP addresses test well-formed addresses.
SOURCE: conf.c:734-784 -/
theorem SafeConfig.freeIpInit (hsafe : SafeConfig base config) :
    SafeConfig base (freeIpInit config) := by
  unfold WifiCat.freeIpInit
  have hfree : ∀ ip ∈ config.freeIpList, isDottedQuad ip = true := hsafe.freeIps
  generalize config.freeIpList = ips at hfree
  induction ips generalizing config with
  | nil => exact hsafe
  | cons ip ips ih =>
    refine ih ⟨hsafe.gwIprange, hsafe.mechanism, hsafe.macs, hsafe.freeIps, ?_⟩
      fun ip' hip' => hfree ip' (List.mem_cons_of_mem _ hip')
    intro name rule hrule t ht
    by_cases hname : name = .preauthenticatedUsers
    · subst hname
      simp only [Config.setRules, Function.update_self, List.mem_cons] at hrule
      rcases hrule with rfl | hrule
      · cases ht
        exact Or.inr (isAddress_of_isDottedQuad (hfree ip (by simp)))
      · exact hsafe.masks _ rule hrule t ht
    · simp only [Config.setRules, Function.update_of_ne hname] at hrule
      exact hsafe.masks name rule hrule t ht

/-! ## The commands of start-up -/

/-- INTERNAL: every command of a list is safe. -/
def SafeCommands (base : Config) (cmds : List IptablesCommand) : Prop :=
  ∀ cmd ∈ cmds, SafeCommand base (.iptables cmd)

theorem SafeCommands.append {cmds cmds' : List IptablesCommand} (h : SafeCommands base cmds)
    (h' : SafeCommands base cmds') : SafeCommands base (cmds ++ cmds') := by
  intro cmd hcmd
  rcases List.mem_append.mp hcmd with hcmd | hcmd
  · exact h cmd hcmd
  · exact h' cmd hcmd

theorem SafeCommands.cons {cmd : IptablesCommand} {cmds : List IptablesCommand}
    (h : SafeCommand base (.iptables cmd)) (h' : SafeCommands base cmds) :
    SafeCommands base (cmd :: cmds) := by
  intro c hc
  rcases List.mem_cons.mp hc with rfl | hc
  · exact h
  · exact h' c hc

theorem safeCommands_nil : SafeCommands base [] := by
  intro cmd hcmd
  cases hcmd

/-- A rule that tests the gateway's range and nothing else of the kind. -/
theorem safeRule_gateway (hsafe : SafeConfig base config) (chain : String) :
    SafeRule base (gatewayJump config chain) := by
  intro m hm t ht
  simp only [gatewayJump, List.mem_cons, List.not_mem_nil, or_false] at hm
  rcases hm with rfl | rfl
  · cases ht
  · cases ht
    exact Or.inl (Or.inl hsafe.gwIprange)

theorem safeCommands_ruleset (hsafe : SafeConfig base config) (table : TableName)
    (ruleset : RulesetName) (chain : String) :
    SafeCommands base (iptablesAppendRuleset config table ruleset chain) := by
  intro cmd hcmd
  obtain ⟨rule, hrule, rfl⟩ := List.mem_map.mp hcmd
  refine safeCommand_of_rule rfl fun m hm t ht => ?_
  have hmasks := hsafe.masks ruleset rule hrule t
  obtain ⟨target, protocol, port, mask⟩ := rule
  simp only [compileRule, List.mem_append, Option.mem_toList, Option.map_eq_some_iff] at hm
  rcases hm with (⟨mask', rfl, rfl⟩ | ⟨_, -, rfl⟩) | ⟨_, -, rfl⟩
  · cases ht
    exact hmasks rfl
  · cases ht
  · cases ht

theorem safeCommands_mangle (hsafe : SafeConfig base config) :
    SafeCommands base (mangleCommands fw config) := by
  have hchains : SafeCommands base (mangleChainCommands config) := by
    have hpostrouting : SafeRule base
        ⟨[.outInterface config.gwInterface, .destination config.gwIprange],
          .jump CHAIN_INCOMING⟩ := by
      intro m hm t ht
      simp only [List.mem_cons, List.not_mem_nil, or_false] at hm
      rcases hm with rfl | rfl
      · cases ht
      · cases ht
        exact Or.inl (Or.inl hsafe.gwIprange)
    exact .cons (safeCommand_of_none rfl) <| .cons (safeCommand_of_none rfl) <|
      .cons (safeCommand_of_none rfl) <| .cons (safeCommand_of_none rfl) <|
      .cons (safeCommand_of_rule rfl (safeRule_gateway hsafe _)) <|
      .cons (safeCommand_of_rule rfl (safeRule_gateway hsafe _)) <|
      .cons (safeCommand_of_rule rfl (safeRule_gateway hsafe _)) <|
      .cons (safeCommand_of_rule rfl hpostrouting) safeCommands_nil
  refine hchains.append (SafeCommands.append ?_ ?_)
  · intro cmd hcmd
    obtain ⟨mac, hmac, rfl⟩ := List.mem_map.mp hcmd
    exact safeCommand_of_rule rfl (safeRule_mac (hsafe.macs _ mac hmac) _)
  · cases config.macmechanism with
    | block =>
      intro cmd hcmd
      obtain ⟨mac, hmac, rfl⟩ := List.mem_map.mp hcmd
      exact safeCommand_of_rule rfl (safeRule_mac (hsafe.macs _ mac hmac) _)
    | allow =>
      refine .cons (safeCommand_of_rule rfl (safeRule_noAddress ?_)) ?_
      · intro m hm
        cases hm
      · intro cmd hcmd
        obtain ⟨mac, hmac, rfl⟩ := List.mem_map.mp hcmd
        exact safeCommand_of_rule rfl (safeRule_mac (hsafe.macs _ mac hmac) _)

theorem safeCommands_nat (hsafe : SafeConfig base config) :
    SafeCommands base (natCommands fw config) := by
  refine SafeCommands.append (SafeCommands.append ?_ (safeCommands_ruleset hsafe _ _ _)) ?_
  · exact .cons (safeCommand_of_none rfl) <|
      .cons (safeCommand_of_rule rfl (safeRule_gateway hsafe _)) <|
      .cons (safeCommand_of_rule rfl (safeRule_noAddress (by simp [addressText]))) <|
      .cons (safeCommand_of_rule rfl (safeRule_noAddress (by simp [addressText])))
        safeCommands_nil
  · exact .cons (safeCommand_of_rule rfl (safeRule_noAddress (by simp [addressText]))) <|
      .cons (safeCommand_of_rule rfl (safeRule_noAddress (by simp))) safeCommands_nil

theorem safeCommands_marked (hsafe : SafeConfig base config) (chain target : String)
    (mark : BitVec 32) (ruleset : RulesetName) :
    SafeCommands base (markedCommands fw config chain mark ruleset target) := by
  unfold markedCommands
  split
  · exact .cons (safeCommand_of_rule rfl (safeRule_noAddress (by simp [addressText])))
      safeCommands_nil
  · refine SafeCommands.append (SafeCommands.append ?_ (safeCommands_ruleset hsafe _ _ _)) ?_
    · exact .cons (safeCommand_of_rule rfl (safeRule_noAddress (by simp [addressText]))) <|
        .cons (safeCommand_of_rule rfl (safeRule_noAddress (by simp [addressText])))
          safeCommands_nil
    · exact .cons (safeCommand_of_rule rfl (safeRule_noAddress (by simp [rejectRule])))
        safeCommands_nil

theorem safeCommands_filter (hsafe : SafeConfig base config) :
    SafeCommands base (filterCommands fw config) := by
  have hplain : ∀ (chain : String) (r : IptablesRule), (∀ m ∈ r.conds, addressText m = none) →
      SafeCommand base (.iptables ⟨.filter, .append chain r⟩) :=
    fun chain r h => safeCommand_of_rule rfl (safeRule_noAddress h)
  have hjump : ∀ chain target : String,
      SafeCommand base (.iptables ⟨.filter, .insert chain 0 (gatewayJump config target)⟩) :=
    fun chain target => safeCommand_of_rule rfl (safeRule_gateway hsafe target)
  have hreject : ∀ chain : String, SafeCommands base [⟨.filter, .append chain rejectRule⟩] :=
    fun chain => .cons (hplain chain _ (by simp [rejectRule])) safeCommands_nil
  refine SafeCommands.append (SafeCommands.append ?_ ?_) ?_
  · intro cmd hcmd
    refine safeCommand_of_none ?_
    simp only [List.mem_cons, List.not_mem_nil, or_false] at hcmd
    rcases hcmd with rfl | rfl | rfl | rfl | rfl <;> rfl
  · unfold toRouterCommands
    refine SafeCommands.append (SafeCommands.append ?_ (safeCommands_marked hsafe _ _ _ _)) ?_
    · exact .cons (hjump _ _) <| .cons (hplain _ _ (by simp [addressText])) <|
        .cons (hplain _ _ (by simp [addressText])) <|
        .cons (hplain _ _ (by simp [addressText])) <|
        .cons (hplain _ _ (by simp [addressText])) <|
        .cons (hplain _ _ (by simp [addressText])) safeCommands_nil
    · split
      · exact .cons (hplain _ _ (by simp)) safeCommands_nil
      · exact (safeCommands_ruleset hsafe _ _ _).append (hreject _)
  · unfold toInternetCommands
    refine SafeCommands.append (SafeCommands.append (SafeCommands.append (SafeCommands.append
      (SafeCommands.append ?_ ?_) (safeCommands_marked hsafe _ _ _ _))
      (safeCommands_marked hsafe _ _ _ _)) ?_) (hreject _)
    · exact .cons (hjump _ _) <| .cons (hplain _ _ (by simp [addressText])) <|
        .cons (hplain _ _ (by simp [addressText])) safeCommands_nil
    · split
      · exact .cons (hplain _ _ (by simp [addressText])) safeCommands_nil
      · exact safeCommands_nil
    · split
      · exact .cons (hplain _ _ (by simp)) safeCommands_nil
      · exact safeCommands_ruleset hsafe _ _ _

/-- INTERNAL: the probes test no address.
SOURCE: fw_iptables.c:115-150 -/
theorem safe_initMarks (base config : Config) (fw : Firewall) :
    Runs (SafeCommand base) (fun _ => True) (iptablesFwInitMarks config fw) := by
  have hor : ∀ fw, Runs (SafeCommand base) (fun _ => True) (checkOrMark fw) := by
    intro fw
    unfold checkOrMark
    refine (runs_iptablesDoCommand (safeCommand_of_rule rfl (safeRule_noAddress (by simp)))).bind
      fun rc _ => ?_
    split
    · exact (runs_iptablesDoCommand (safeCommand_of_none rfl)).bind fun _ _ => trivial
    · trivial
  have hmask : ∀ fw, Runs (SafeCommand base) (fun _ => True) (checkMasking fw) := by
    intro fw
    unfold checkMasking
    refine (runs_iptablesDoCommand (safeCommand_of_rule rfl
      (safeRule_noAddress (by simp [addressText])))).bind fun rc _ => ?_
    split
    · exact (runs_iptablesDoCommand (safeCommand_of_none rfl)).bind fun _ _ => trivial
    · trivial
  unfold iptablesFwInitMarks iptablesCheckMarkMasking
  refine Runs.bind (P := fun _ => True) ?_ fun _ _ => trivial
  exact (hor _).bind fun _ _ => (hmask _).bind fun _ _ => trivial

/-- INTERNAL: **the commands of `iptables_fw_init`** on well-formed lists.
SOURCE: fw_iptables.c:314-605 -/
theorem safe_fwInit (hsafe : SafeConfig base config) (fw : Firewall) :
    Runs (SafeCommand base) (fun _ => True) (iptablesFwInit config fw) := by
  have htc : ∀ fwQuiet, Runs (SafeCommand base) (fun _ => True)
      (if config.trafficControl then tcInitTc fwQuiet config else pure 0) := by
    intro fwQuiet
    refine (runs_trafficControl fwQuiet config).mono ?_ fun _ _ => trivial
    intro cmd hcmd c hc r hr
    rcases hcmd c hc with rfl | rfl
    · cases hr
      exact safeRule_noAddress (by simp)
    · cases hr
      exact safeRule_noAddress (by simp)
  unfold iptablesFwInit iptablesFwInitTables
  refine (safe_initMarks base config fw).bind fun marks _ => ?_
  refine Runs.bind (P := fun _ => True) ?_ fun _ _ => trivial
  refine (runs_iptablesDoCommands (safeCommands_mangle hsafe)).bind fun _ _ => ?_
  refine (htc _).bind fun _ _ => ?_
  refine (runs_iptablesDoCommands (safeCommands_nat hsafe)).bind fun _ _ => ?_
  exact (runs_iptablesDoCommands (safeCommands_filter hsafe)).bind fun _ _ => trivial

/-! ## Requests -/

/-- The addresses of a request are well formed where the validators accept them.
SOURCE: client_list.c:191-216, ndsctl_thread.c:275-458 -/
def WellFormedRequest (config : Config) : Request → Prop
  | .addClient m ip => checkIpFormat ip = true → ∀ mac, arpGet m.arpTable ip = some mac →
      isDottedQuad ip = true ∧ isMacAddress mac = true
  | .ndsctlAuth m ip => checkIpFormat ip = true → ∀ mac, arpGet m.arpTable ip = some mac →
      isDottedQuad ip = true ∧ isMacAddress mac = true
  | .ndsctlMac request arg => checkMacFormat arg = true →
      config.usesList (requestListName request) = true → isMacAddress arg = true
  | _ => True

/-- INTERNAL: a list function that answers 0 has accepted the address. -/
theorem accepted_of_requestList {request : MacRequest} {arg : Text} {config : Config}
    (h : (requestList request arg config).1 = 0) :
    checkMacFormat arg = true ∧ config.usesList (requestListName request) = true := by
  rcases requestList_cases request arg config with ⟨hne, -⟩ | ⟨hcheck, huses, -⟩
  · exact absurd h hne
  · exact ⟨hcheck, huses⟩

/-- INTERNAL: well-formed requests bring well-formed addresses in, and put them into
commands. -/
theorem sources_of_wellFormed {requests : List Request}
    (hrequests : ∀ request ∈ requests, WellFormedRequest base request) :
    Sources (SafeCommand base) (fun mac => isMacAddress mac = true)
      (fun ip mac => isDottedQuad ip = true ∧ isMacAddress mac = true) base.macmechanism
      requests := by
  refine ⟨?_, ?_, ?_, ?_⟩
  · rintro cmd c ⟨⟩
  · rintro fw client action ⟨hip, hmac⟩ cmd hcmd
    have hsource : ∀ t, some client.ip = some t → ConfigText base t ∨ isAddress t = true := by
      rintro t ⟨⟩
      exact Or.inr (isAddress_of_isDottedQuad hip)
    have hout : SafeRule base (outgoingMarkRule fw client) := by
      intro m hm t ht
      simp only [outgoingMarkRule, List.mem_cons, List.not_mem_nil, or_false] at hm
      rcases hm with rfl | rfl
      · exact hsource t ht
      · cases ht
        exact Or.inr (isAddress_of_isMacAddress hmac)
    have hin : ∀ target, SafeRule base ⟨[.destination client.ip], target⟩ := by
      intro target m hm t ht
      rw [List.mem_singleton.mp hm] at ht
      exact hsource t ht
    simp only [accessCommands, List.mem_cons, List.not_mem_nil, or_false] at hcmd
    cases action <;> rcases hcmd with rfl | rfl | rfl
    · exact safeCommand_of_rule rfl hout
    · exact safeCommand_of_rule rfl (hin _)
    · exact safeCommand_of_rule rfl (hin _)
    · exact safeCommand_of_rule rfl hout
    · exact safeCommand_of_rule rfl (hin _)
    · exact safeCommand_of_rule rfl (hin _)
  · intro request arg hmem config hmechanism hzero
    obtain ⟨hcheck, huses⟩ := accepted_of_requestList hzero
    have hbase : base.usesList (requestListName request) = true := by
      unfold Config.usesList at huses ⊢
      rwa [← hmechanism]
    have hmac : isMacAddress arg = true := hrequests _ hmem hcheck hbase
    refine ⟨?_, fun fw => ?_⟩
    · rw [macCopy_of_isMacAddress hmac]
      exact hmac
    · cases request <;> exact safeCommand_of_rule rfl (safeRule_mac hmac _)
  · intro m ip hmem hcheck mac harp
    rcases hmem with hmem | hmem
    · exact hrequests _ hmem hcheck mac harp
    · exact hrequests _ hmem hcheck mac harp

/-- **No address injection**: when what the validators accept of a document of the
configuration server, of the control commands and of the ARP table is well formed, every
address in every command of the run is, or is the configuration file's own.
SOURCE: conf.c:1383-1450, fw_iptables.c:152-188 -/
theorem addresses_well_formed (out : Outside) (config : Config) (document : List ServerEntry)
    (requests : List Request) (h : Host)
    (hmacs : ∀ l, ∀ mac ∈ config.maclist l, isMacAddress mac = true)
    (hfree : ∀ ip ∈ config.freeIpList, isDottedQuad ip = true)
    (hdocument : ∀ e ∈ document, WellFormedEntry config e)
    (hrequests : ∀ request ∈ requests, WellFormedRequest config request) :
    ∀ cmd, Event.execute cmd ∈
        Prog.asked (Host.answer out) (daemonRun (serverConfig config document) requests) h →
      SafeCommand config cmd := by
  have hfile : SafeConfig config config :=
    ⟨rfl, rfl, hmacs, hfree, fun name rule hrule t ht => Or.inl (Or.inr ⟨name, rule, hrule, ht⟩)⟩
  have hsafe : SafeConfig config (serverConfig config document) :=
    (hfile.document document hdocument).freeIpInit
  have hrun := runs_daemonRun (sources_of_wellFormed hrequests) (safe_fwInit hsafe {})
    hsafe.macs hsafe.mechanism
  intro cmd hcmd
  exact Prog.forall_asked hrun h _ hcmd cmd rfl

/-- The command for a free IP address of a document with well-formed addresses only. -/
def freeAddressCommand : Command :=
  .iptables ⟨.nat, .append CHAIN_OUTGOING
    ⟨[.destination "1.2.3.4".toList, .protocol "tcp".toList], .verdict .ACCEPT⟩⟩

/-- It is run, and safe. -/
theorem addresses_well_formed_sample :
    Event.execute freeAddressCommand ∈ Prog.asked (Host.answer obligingMachine)
        (daemonRun (serverConfig {} [.freeIP "1.2.3.4".toList])
          [.ndsctlMac .block "00:11:22:33:44:55".toList]) emptyRouter ∧
      SafeCommand {} freeAddressCommand := by
  have hcmd : Event.execute freeAddressCommand ∈ Prog.asked (Host.answer obligingMachine)
      (daemonRun (serverConfig {} [.freeIP "1.2.3.4".toList])
        [.ndsctlMac .block "00:11:22:33:44:55".toList]) emptyRouter := by
    decide +kernel
  refine ⟨hcmd, addresses_well_formed obligingMachine {} _ _ emptyRouter ?_ ?_ ?_ ?_ _ hcmd⟩
  · rintro l mac ⟨⟩
  · rintro ip ⟨⟩
  · intro e he
    rw [List.mem_singleton.mp he]
    intro _
    decide
  · intro request hrequest
    rw [List.mem_singleton.mp hrequest]
    intro _ _
    decide

/-- The free IP address `1.2.3.4;reboot` passes the check, and goes into a command with its
tail.
SOURCE: conf.c:1384-1421, fw_iptables.c:224-242 -/
theorem addresses_not_well_formed :
    ¬∀ (out : Outside) (config : Config) (document : List ServerEntry) (requests : List Request)
      (h : Host), (∀ l, ∀ mac ∈ config.maclist l, isMacAddress mac = true) →
      (∀ ip ∈ config.freeIpList, isDottedQuad ip = true) →
      ∀ cmd, Event.execute cmd ∈
          Prog.asked (Host.answer out) (daemonRun (serverConfig config document) requests) h →
        SafeCommand config cmd := by
  intro hall
  let rule : IptablesRule :=
    ⟨[.destination "1.2.3.4;reboot".toList, .protocol "tcp".toList], .verdict .ACCEPT⟩
  have hcmd : Event.execute (.iptables ⟨.nat, .append CHAIN_OUTGOING rule⟩) ∈
      Prog.asked (Host.answer obligingMachine)
        (daemonRun (serverConfig {} [.freeIP "1.2.3.4;reboot".toList]) []) emptyRouter := by
    decide +kernel
  have hsafe := hall obligingMachine {} [.freeIP "1.2.3.4;reboot".toList] [] emptyRouter
    (by rintro l mac ⟨⟩) (by rintro ip ⟨⟩) _ hcmd _ rfl rule rfl
    (.destination "1.2.3.4;reboot".toList) (by simp [rule]) _ rfl
  rcases hsafe with (hrange | ⟨name, r, hr, -⟩) | haddress
  · exact absurd hrange (by decide)
  · cases name <;> cases hr
  · exact absurd haddress (by decide)

end WifiCat.Analysis
