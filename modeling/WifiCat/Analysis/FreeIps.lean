import WifiCat.Analysis.FilterPolicy

/-!
# Free IP addresses

`free_ip_init` puts a rule for every free IP address in front of the preauthenticated-users
ruleset, and `iptables_fw_init` writes that ruleset into `ndsNET` and into the nat table.
The rules accept what they match and leave the rest to the ruleset behind them
(`firstMatch_free`), except that a ruleset that was empty is no longer so, and its policy is
not consulted any more.
-/

set_option autoImplicit false

namespace WifiCat.Analysis

open CommandProgram Netfilter Scan Interface

variable {H : Type} {config : Config} {fw : Firewall}

/-! ## What free addresses are to do -/

/-- A TCP packet addressed to one of the free IP addresses. -/
def tcpToFreeIp (R : Reading H) (config : Config) (h : H) : Bool :=
  R.protocol "tcp".toList h && config.freeIpList.any fun ip => R.destination ip h

/-- `ndsNET` lets the packet pass: it accepts it or returns. -/
def PassesInternet (R : Reading H) (ts : Tables) (p : Packet H) : Prop :=
  decisionOf (runTable R ts .filter CHAIN_TO_INTERNET p) = some .accept ∨
    decisionOf (runTable R ts .filter CHAIN_TO_INTERNET p) = some .ret

/-- The packet has the mark of no trusted and of no authenticated client: the packets `ndsOUT`
of the nat table leaves to the preauthenticated-users ruleset. -/
def preauthenticatedNat (fw : Firewall) (mark : BitVec 32) : Bool :=
  !markMatches fw.fwMarkTrusted fw.markmask mark &&
    !markMatches fw.fwMarkAuthenticated fw.markmask mark

/-- The firewall with the free addresses, `after`, compared with the one without, `before`:
however packets are read, of the preauthenticated packets it lets the TCP packets to a free
address pass as well, does not redirect those, and treats every other packet alike. -/
structure OnlyWidens (fw : Firewall) (config : Config) (before after : Tables) : Prop where
  passes : ∀ {H : Type} (R : Reading H) (p : Packet H), markClass fw p.mark = .other →
    R.state .INVALID p.header = false →
    (PassesInternet R after p ↔ PassesInternet R before p ∨ tcpToFreeIp R config p.header = true)
  not_redirected : ∀ {H : Type} (R : Reading H) (p : Packet H),
    preauthenticatedNat fw p.mark = true → tcpToFreeIp R config p.header = true →
    ∀ address port q, runTable R after .nat CHAIN_OUTGOING p ≠ .decided (.DNAT address port) q
  others : ∀ {H : Type} (R : Reading H) (p : Packet H),
    ¬(preauthenticatedNat fw p.mark = true ∧ tcpToFreeIp R config p.header = true) →
    runTable R after .nat CHAIN_OUTGOING p = runTable R before .nat CHAIN_OUTGOING p

/-! ## The ruleset -/

/-- The rules of the free addresses, in the order they stand in the ruleset. -/
def freeRules (config : Config) : List FirewallRule :=
  (config.freeIpList.map freeIpRule).reverse

/-- INTERNAL: `free_ip_init` changes one ruleset, which it puts the free addresses in front of.
SOURCE: conf.c:734-784 -/
theorem freeIpInit_eq (config : Config) :
    freeIpInit config = config.setRules .preauthenticatedUsers
      (freeRules config ++ getRulesetList config .preauthenticatedUsers) := by
  have hfold : ∀ (ips : List Text) (c : Config),
      ips.foldl (fun config ip => config.setRules .preauthenticatedUsers
        (freeIpRule ip :: (config.rulesets .preauthenticatedUsers).rules)) c =
      c.setRules .preauthenticatedUsers
        ((ips.map freeIpRule).reverse ++ getRulesetList c .preauthenticatedUsers) := by
    intro ips
    induction ips with
    | nil => intro c; simp [Config.setRules, getRulesetList]
    | cons ip ips ih =>
      intro c
      rw [List.foldl_cons, ih]
      simp [Config.setRules, getRulesetList]
  exact hfold config.freeIpList config

@[simp] theorem getRulesetList_freeIpInit (config : Config) :
    getRulesetList (freeIpInit config) .preauthenticatedUsers =
      freeRules config ++ getRulesetList config .preauthenticatedUsers := by
  rw [freeIpInit_eq]
  simp [getRulesetList, Config.setRules]

@[simp] theorem getEmptyRulesetPolicy_freeIpInit (config : Config) (name : RulesetName) :
    getEmptyRulesetPolicy (freeIpInit config) name = getEmptyRulesetPolicy config name := by
  rw [freeIpInit_eq]
  by_cases hname : name = .preauthenticatedUsers
  · subst hname
    simp [getEmptyRulesetPolicy, Config.setRules]
  · simp [getEmptyRulesetPolicy, Config.setRules, hname]

/-- INTERNAL: the marks are set up as without the free addresses.
SOURCE: fw_iptables.c:351-358 -/
theorem fwInitMarks_freeIpInit (config : Config) (fw : Firewall) :
    iptablesFwInitMarks (freeIpInit config) fw = iptablesFwInitMarks config fw := by
  rw [freeIpInit_eq]
  rfl

/-- INTERNAL: a rule for a free address accepts the TCP packets to it.
SOURCE: conf.c:774-779 -/
theorem applies_freeIpRule (R : Reading H) (ip : Text) (h : H) :
    applies R h (freeIpRule ip) = (R.destination ip h && R.protocol "tcp".toList h) := by
  simp [applies, freeIpRule]

/-- INTERNAL: **the free addresses in front of a ruleset**: they accept the TCP packets to
them, and the ruleset decides about the others. -/
theorem firstMatch_free (R : Reading H) (config : Config) (rules : List FirewallRule) (h : H) :
    firstMatch R (freeRules config ++ rules) h =
      if tcpToFreeIp R config h then some .accept else firstMatch R rules h := by
  have hfree : firstMatch R (freeRules config) h =
      if tcpToFreeIp R config h then some .accept else none := by
    cases htcp : tcpToFreeIp R config h with
    | true =>
      simp only [tcpToFreeIp, Bool.and_eq_true, List.any_eq_true] at htcp
      obtain ⟨hprotocol, ip, hip, hdest⟩ := htcp
      have hmem : freeIpRule ip ∈ freeRules config := by
        simpa [freeRules] using ⟨ip, hip, rfl⟩
      have happ : applies R h (freeIpRule ip) = true := by
        rw [applies_freeIpRule, hdest, hprotocol]
        rfl
      cases hmatch : firstMatch R (freeRules config) h with
      | none =>
        have hno := List.findSome?_eq_none_iff.mp hmatch _ hmem
        rw [if_pos happ] at hno
        cases hno
      | some d =>
        obtain ⟨rule, hrule, hd⟩ := List.exists_of_findSome?_eq_some hmatch
        simp only [freeRules, List.mem_reverse, List.mem_map] at hrule
        obtain ⟨ip', -, rfl⟩ := hrule
        split at hd
        · exact hd.symm
        · cases hd
    | false =>
      rw [if_neg (by simp)]
      refine List.findSome?_eq_none_iff.mpr fun rule hrule => ?_
      simp only [freeRules, List.mem_reverse, List.mem_map] at hrule
      obtain ⟨ip, hip, rfl⟩ := hrule
      rw [applies_freeIpRule]
      simp only [tcpToFreeIp, Bool.and_eq_false_iff, List.any_eq_false] at htcp
      have happ : (R.destination ip h && R.protocol "tcp".toList h) = false := by
        rcases htcp with hprotocol | hdest
        · rw [hprotocol, Bool.and_false]
        · rw [Bool.eq_false_iff.mpr (hdest ip hip), Bool.false_and]
      rw [happ]
      rfl
  unfold firstMatch at hfree ⊢
  rw [List.findSome?_append, hfree]
  split <;> rfl

/-! ## The two tables -/

/-- INTERNAL: which packets pass, by the ruleset; a preauthenticated packet that is not
`INVALID` meets nothing else.
SOURCE: fw_iptables.c:580-593 -/
theorem passesInternet_iff (R : Reading H) {ts : Tables} (hchains : FilterChains fw config ts)
    (p : Packet H) (hclass : markClass fw p.mark = .other)
    (hvalid : R.state .INVALID p.header = false) :
    PassesInternet R ts p ↔
      if isEmptyRuleset config .preauthenticatedUsers then
        getEmptyRulesetPolicy config .preauthenticatedUsers ≠ .REJECT
      else firstMatch R (getRulesetList config .preauthenticatedUsers) p.header = some .accept := by
  have hpolicy : decisionOf (runTable R ts .filter CHAIN_TO_INTERNET p) =
      some (rulesetDecision R config .preauthenticatedUsers p.header) := by
    unfold runTable runChain
    rw [hchains.internet, Option.getD_some,
      decision_internet R _ 1 _ config hchains.trusted hchains.authenticated p]
    simp [internetPolicy, hclass, hvalid]
  rw [PassesInternet, hpolicy, rulesetDecision]
  split
  · cases getEmptyRulesetPolicy config .preauthenticatedUsers <;> simp [policyDecision]
  · cases hmatch : firstMatch R (getRulesetList config .preauthenticatedUsers) p.header with
    | none => simp
    | some d =>
      -- no rule of a ruleset returns
      have hret : d ≠ .ret := by
        obtain ⟨rule, -, hd⟩ := List.exists_of_findSome?_eq_some hmatch
        split at hd
        · rintro rfl
          cases htarget : rule.target <;> simp [targetDecision, htarget] at hd
        · cases hd
      simp [hret]

/-- INTERNAL: what the nat table does with a packet: trusted and authenticated clients pass,
then the preauthenticated-users ruleset is asked.
SOURCE: fw_iptables.c:425-444 -/
theorem nat_outgoing (R : Reading H) {ts : Tables}
    (hnat : (ts .nat).rules CHAIN_OUTGOING = some (natOutgoingChain fw config)) (p : Packet H) :
    runTable R ts .nat CHAIN_OUTGOING p =
      if preauthenticatedNat fw p.mark then
        match firstMatch R (getRulesetList config .preauthenticatedUsers) p.header with
        | some d => .decided (verdictOf d) p
        | none =>
          if R.protocol "tcp".toList p.header && R.dport "80".toList p.header then
            .decided (.DNAT config.gwAddress config.gwPort) p
          else .decided .ACCEPT p
      else .decided .ACCEPT p := by
  unfold runTable runChain
  rw [hnat, Option.getD_some]
  unfold natOutgoingChain rulesetRules preauthenticatedNat
  simp only [List.cons_append, List.nil_append, walk]
  cases htrusted : markMatches fw.fwMarkTrusted fw.markmask p.mark with
  | true => simp [Reading.sat, htrusted]
  | false =>
    cases hauth : markMatches fw.fwMarkAuthenticated fw.markmask p.mark with
    | true => simp [Reading.sat, htrusted, hauth]
    | false =>
      simp only [matches_cons, matches_nil, Reading.sat, htrusted, hauth, Bool.false_and,
        Bool.false_eq_true, if_false, Bool.not_false, Bool.and_self, if_true, walk_ruleset]
      cases firstMatch R (getRulesetList config .preauthenticatedUsers) p.header with
      | some d => rfl
      | none => simp [walk, Reading.sat]

/-- The preauthenticated-users ruleset has rules of its own, rejects when it has none, or
gets none. -/
def FreeIpsHarmless (config : Config) : Prop :=
  config.freeIpList = [] ∨ isEmptyRuleset config .preauthenticatedUsers = false ∨
    getEmptyRulesetPolicy config .preauthenticatedUsers = .REJECT

/-- INTERNAL: what passes with the free addresses, by the ruleset, when they do no harm. -/
theorem passes_freeIpInit (R : Reading H) (hharmless : FreeIpsHarmless config) (h : H) :
    (if isEmptyRuleset (freeIpInit config) .preauthenticatedUsers then
        getEmptyRulesetPolicy (freeIpInit config) .preauthenticatedUsers ≠ .REJECT
      else firstMatch R (getRulesetList (freeIpInit config) .preauthenticatedUsers) h =
        some .accept) ↔
      (if isEmptyRuleset config .preauthenticatedUsers then
        getEmptyRulesetPolicy config .preauthenticatedUsers ≠ .REJECT
      else firstMatch R (getRulesetList config .preauthenticatedUsers) h = some .accept) ∨
        tcpToFreeIp R config h = true := by
  rw [getEmptyRulesetPolicy_freeIpInit, getRulesetList_freeIpInit, firstMatch_free]
  have hempty : isEmptyRuleset (freeIpInit config) .preauthenticatedUsers =
      (config.freeIpList.isEmpty && isEmptyRuleset config .preauthenticatedUsers) := by
    rw [isEmptyRuleset, getRulesetList_freeIpInit, isEmptyRuleset, Bool.eq_iff_iff]
    simp [freeRules]
  rw [hempty]
  cases hips : config.freeIpList with
  | nil =>
    have htcp : tcpToFreeIp R config h = false := by simp [tcpToFreeIp, hips]
    simp [htcp]
  | cons ip ips =>
    rw [List.isEmpty_cons, Bool.false_and, if_neg Bool.false_ne_true]
    cases hrules : isEmptyRuleset config .preauthenticatedUsers with
    | true =>
      have hreject : getEmptyRulesetPolicy config .preauthenticatedUsers = .REJECT := by
        rcases hharmless with hnil | hfull | hreject
        · rw [hips] at hnil
          cases hnil
        · rw [hrules] at hfull
          cases hfull
        · exact hreject
      have hnil : getRulesetList config .preauthenticatedUsers = [] := by
        simpa [isEmptyRuleset] using hrules
      rw [if_pos rfl, hnil]
      cases tcpToFreeIp R config h <;> simp [hreject, firstMatch]
    | false =>
      rw [if_neg Bool.false_ne_true]
      cases tcpToFreeIp R config h <;> simp

/-- Headers of packets that are of no protocol `iptables` is asked about. -/
def otherProtocol : Reading MacText := { macReading with protocol := fun _ _ => false }

/-- INTERNAL: a packet without a mark is neither blocked nor trusted nor authenticated.
SOURCE: fw_iptables.c:103-107 -/
theorem markClass_zero (hready : MarksReady config fw) : markClass fw 0 = .other := by
  obtain ⟨-, -, -, hblocked, htrusted, hauth⟩ := hready.accepted
  unfold markClass
  rw [hready.blocked, hready.trusted, hready.authenticated, markMatches_zero hblocked,
    markMatches_zero htrusted, markMatches_zero hauth]
  rfl

/-- **Free addresses widen access** exactly when the preauthenticated-users ruleset they are
put in front of has rules of its own or rejects when it is empty; an empty one that lets
packets pass is replaced by the free addresses alone.
SOURCE: conf.c:734-784, fw_iptables.c:425-444, 580-593 -/
theorem free_ips_only_widen_iff (out : Outside) (config : Config) (fw : Firewall) (h : Host)
    (hrc : (runOn out (iptablesFwInit config fw) h).1.1 = 0)
    (hclean : (runOn out (iptablesFwInit config fw) h).2.clean)
    (hfree : (runOn out (iptablesFwInit (freeIpInit config) fw) h).2.clean) :
    OnlyWidens (runOn out (iptablesFwInit config fw) h).1.2 config
        (runOn out (iptablesFwInit config fw) h).2.tables
        (runOn out (iptablesFwInit (freeIpInit config) fw) h).2.tables ↔
      FreeIpsHarmless config := by
  obtain ⟨hbefore, -, hmarks⟩ := fwInit_ready hclean
  obtain ⟨hafter, -, -⟩ := fwInit_ready hfree
  have hready := hmarks hrc
  have hfw : (runOn out (iptablesFwInit (freeIpInit config) fw) h).1.2 =
      (runOn out (iptablesFwInit config fw) h).1.2 := by
    simp only [runOn, iptablesFwInit, Prog.run_bind, Prog.pure_eq, Prog.run_done,
      fwInitMarks_freeIpInit]
  rw [hfw] at hafter
  generalize (runOn out (iptablesFwInit config fw) h).1.2 = started at *
  generalize (runOn out (iptablesFwInit config fw) h).2.tables = before at *
  generalize (runOn out (iptablesFwInit (freeIpInit config) fw) h).2.tables = after at *
  constructor
  · intro hwidens
    by_contra hnot
    obtain ⟨hips, hempty, hpolicy⟩ : config.freeIpList ≠ [] ∧
        isEmptyRuleset config .preauthenticatedUsers = true ∧
        getEmptyRulesetPolicy config .preauthenticatedUsers ≠ .REJECT := by
      unfold FreeIpsHarmless at hnot
      push Not at hnot
      simpa using hnot
    -- a packet of another protocol passed, and does not any more
    have hpass := hwidens.passes otherProtocol ⟨⟨"00:11:22:33:44:55".toList, by decide⟩, 0⟩
      (markClass_zero hready) rfl
    have hnone : getRulesetList config .preauthenticatedUsers = [] := by
      simpa [isEmptyRuleset] using hempty
    have hrules : freeRules config ≠ [] := by simpa [freeRules] using hips
    rw [passesInternet_iff _ hbefore.filter _ (markClass_zero hready) rfl,
      passesInternet_iff _ hafter.filter _ (markClass_zero hready) rfl, if_pos hempty, if_neg,
      getRulesetList_freeIpInit, firstMatch_free, hnone] at hpass
    · have htcp : ∀ m, tcpToFreeIp otherProtocol config m = false := fun m => rfl
      rw [htcp] at hpass
      have hback := hpass.mpr (Or.inl hpolicy)
      cases hback
    · rw [isEmptyRuleset, getRulesetList_freeIpInit, hnone]
      simpa using hrules
  · intro hharmless
    refine ⟨?_, ?_, ?_⟩
    · intro H R p hclass hvalid
      rw [passesInternet_iff R hbefore.filter p hclass hvalid,
        passesInternet_iff R hafter.filter p hclass hvalid]
      exact passes_freeIpInit R hharmless p.header
    · intro H R p hmark htcp address port q
      rw [nat_outgoing R hafter.nat, if_pos hmark, getRulesetList_freeIpInit, firstMatch_free,
        if_pos htcp]
      simp [verdictOf]
    · intro H R p hother
      rw [nat_outgoing R hafter.nat, nat_outgoing R hbefore.nat]
      by_cases hmark : preauthenticatedNat started p.mark = true
      · have htcp : tcpToFreeIp R config p.header = false := by
          simpa [hmark] using hother
        rw [if_pos hmark, if_pos hmark, getRulesetList_freeIpInit, firstMatch_free, htcp,
          freeIpInit_eq]
        rfl
      · rw [if_neg hmark, if_neg hmark]

/-- A portal with one free address whose unauthenticated clients are let pass. -/
def freeOpenPortal : Config where
  freeIpList := ["198.51.100.7".toList]
  rulesets := fun name => { defaultRulesets name with emptyrulesetpolicy := .ACCEPT }

/-- A portal with one free address and the default policies. -/
def freeClosedPortal : Config where
  freeIpList := ["198.51.100.7".toList]

/-- With the default policies the free address is one more thing to reach.
SOURCE: conf.h:94-98 -/
theorem free_ips_only_widen_closed :
    OnlyWidens (runOn obligingMachine (iptablesFwInit freeClosedPortal {}) emptyRouter).1.2
      freeClosedPortal
      (runOn obligingMachine (iptablesFwInit freeClosedPortal {}) emptyRouter).2.tables
      (runOn obligingMachine (iptablesFwInit (freeIpInit freeClosedPortal) {})
        emptyRouter).2.tables :=
  (free_ips_only_widen_iff obligingMachine freeClosedPortal {} emptyRouter (by decide +kernel)
    (by decide +kernel) (by decide +kernel)).mpr (Or.inr (Or.inr rfl))

/-- A packet of another protocol passed the open portal before it had a free address.
SOURCE: fw_iptables.c:588-592 -/
theorem free_ips_narrow :
    ¬OnlyWidens (runOn obligingMachine (iptablesFwInit freeOpenPortal {}) emptyRouter).1.2
      freeOpenPortal
      (runOn obligingMachine (iptablesFwInit freeOpenPortal {}) emptyRouter).2.tables
      (runOn obligingMachine (iptablesFwInit (freeIpInit freeOpenPortal) {})
        emptyRouter).2.tables := by
  intro hwidens
  have hpass := hwidens.passes otherProtocol ⟨⟨"00:11:22:33:44:55".toList, by decide⟩, 0⟩
    (by decide +kernel) rfl
  have hback := hpass.mpr (Or.inl (Or.inl (by decide +kernel)))
  rcases hback with haccept | hret
  · exact absurd haccept (by decide +kernel)
  · exact absurd hret (by decide +kernel)

end WifiCat.Analysis
