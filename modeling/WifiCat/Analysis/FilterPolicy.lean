import WifiCat.Analysis.Startup
import WifiCat.Interface.Policy

/-!
# The filter chains denote the rulesets

The commands of `iptables_fw_init` compile the five rulesets into five chains with jumps
between them; the traversal of `ndsNET` and `ndsRTR` gives every packet the decision of
`internetPolicy` and `routerPolicy`.  A ruleset's rules are a first-match list
(`walk_ruleset`), a marked packet is decided by its own ruleset (`decision_marked`).
-/

set_option autoImplicit false

namespace WifiCat.Analysis

open CommandProgram Netfilter Scan Interface

variable {H : Type} (R : Reading H)

/-- What the end of a chain's traversal means for the packet: a verdict, or a return to
the chain that jumped here. -/
def decisionOf : Outcome Verdict (Packet H) → Option Decision
  | .decided .ACCEPT _ => some .accept
  | .decided .DROP _ => some .drop
  | .decided (.REJECT _) _ => some .reject
  | .decided (.DNAT _ _) _ => none
  | .returned _ => some .ret
  | .fell _ => none

@[simp] theorem matches_nil (t : Target Verdict Extension) (p : Packet H) :
    Rule.matches R.semantics (⟨[], t⟩ : IptablesRule) p = true := rfl

@[simp] theorem matches_cons (m : Match) (ms : List Match) (t : Target Verdict Extension)
    (p : Packet H) :
    Rule.matches R.semantics (⟨m :: ms, t⟩ : IptablesRule) p =
      (R.sat m p && Rule.matches R.semantics (⟨ms, t⟩ : IptablesRule) p) := rfl

section Rulesets

variable (call : String → Packet H → Outcome Verdict (Packet H))

/-- INTERNAL: the compiled rule matches the packets the rule applies to.
SOURCE: fw_iptables.c:224-242 -/
theorem matches_compileRule (rule : FirewallRule) (p : Packet H) :
    Rule.matches R.semantics (compileRule rule) p = applies R p.header rule := by
  obtain ⟨target, protocol, port, mask⟩ := rule
  unfold compileRule applies
  cases mask <;> cases protocol <;> cases port <;>
    simp [Reading.sat, Bool.and_assoc]

/-- The verdict of a decision a ruleset can make. -/
def verdictOf : Decision → Verdict
  | .accept => .ACCEPT
  | .drop => .DROP
  | _ => .REJECT none

theorem decides_compileRule (rule : FirewallRule) (p : Packet H) :
    Rule.decides R.semantics p (compileRule rule) =
      (if applies R p.header rule then targetDecision rule.target else none).map verdictOf := by
  simp only [Rule.decides, matches_compileRule]
  by_cases happ : applies R p.header rule = true
  · rw [if_pos happ, if_pos happ]
    cases htarget : rule.target <;>
      simp [compileRule, htarget, FirewallTarget.compile, targetDecision, verdictOf]
  · rw [if_neg happ, if_neg happ]
    rfl

/-- INTERNAL: **a compiled ruleset is a first-match list**: it decides as its first rule
that applies and decides, and is fallen through when there is none.
SOURCE: fw_iptables.c:258-276 -/
theorem walk_ruleset (rules : List FirewallRule) (rest : List IptablesRule) (p : Packet H) :
    walk R.semantics call (rules.map compileRule ++ rest) p =
      match firstMatch R rules p.header with
      | some d => .decided (verdictOf d) p
      | none => walk R.semantics call rest p := by
  have hshape : ∀ r ∈ rules.map compileRule,
      (∃ v, r.target = .verdict v) ∨ ∃ x, r.target = .ext x ∧ R.semantics.run x p = p := by
    intro r hr
    obtain ⟨rule, -, rfl⟩ := List.mem_map.mp hr
    cases htarget : rule.target with
    | drop => exact Or.inl ⟨_, congrArg FirewallTarget.compile htarget⟩
    | reject => exact Or.inl ⟨_, congrArg FirewallTarget.compile htarget⟩
    | accept => exact Or.inl ⟨_, congrArg FirewallTarget.compile htarget⟩
    | log => exact Or.inr ⟨_, congrArg FirewallTarget.compile htarget, rfl⟩
    | ulog => exact Or.inr ⟨_, congrArg FirewallTarget.compile htarget, rfl⟩
  have hdecides : (rules.map compileRule).findSome? (Rule.decides R.semantics p) =
      (firstMatch R rules p.header).map verdictOf := by
    rw [List.findSome?_map, firstMatch, List.map_findSome?]
    exact congrArg (fun f => rules.findSome? f) (funext fun rule => decides_compileRule R rule p)
  rw [walk_append, walk_firstMatch R.semantics call hshape, hdecides]
  cases firstMatch R rules p.header <;> rfl

/-- INTERNAL: a ruleset never decides to return. -/
theorem decisionOf_firstMatch {rules : List FirewallRule} {h : H} {d : Decision}
    (hd : firstMatch R rules h = some d) (p : Packet H) :
    decisionOf (.decided (verdictOf d) p) = some d := by
  obtain ⟨rule, -, hrule⟩ := List.exists_of_findSome?_eq_some hd
  split at hrule
  · cases htarget : rule.target <;> rw [htarget] at hrule <;> cases hrule <;> rfl
  · cases hrule

/-- INTERNAL: a ruleset with the reject rule behind it always gives a verdict.
SOURCE: fw_iptables.c:513-516 -/
theorem walk_ruleset_reject (config : Config) (name : RulesetName) (p : Packet H) :
    ∃ v, walk R.semantics call (rulesetRules config name ++ [rejectRule]) p = .decided v p ∧
      decisionOf (.decided v p) =
        some ((firstMatch R (getRulesetList config name) p.header).getD .reject) := by
  unfold rulesetRules
  rw [walk_ruleset]
  cases hd : firstMatch R (getRulesetList config name) p.header with
  | none => exact ⟨_, rfl, rfl⟩
  | some d => exact ⟨_, rfl, decisionOf_firstMatch R hd p⟩

/-- INTERNAL: a rule with a verdict decides the packets it matches. -/
theorem decision_verdict (conds : List Match) (v : Verdict) (rest : List IptablesRule)
    (p : Packet H) :
    decisionOf (walk R.semantics call (⟨conds, .verdict v⟩ :: rest) p) =
      if conds.all fun m => R.sat m p then decisionOf (.decided v p)
      else decisionOf (walk R.semantics call rest p) := by
  simp only [walk, Rule.matches, Reading.semantics]
  exact apply_ite decisionOf _ _ _

/-- INTERNAL: the policy of an empty ruleset, as a target. -/
theorem decision_policy (policy : EmptyRulesetPolicy) (rest : List IptablesRule)
    {r : IptablesRule} {p : Packet H} (hmatch : r.matches R.semantics p = true)
    (htarget : r.target = policy.target) :
    decisionOf (walk R.semantics call (r :: rest) p) = some (policyDecision policy) := by
  simp only [walk, hmatch, if_true, htarget]
  cases policy <;> rfl

end Rulesets

section Marked

variable (t : Netfilter.Table Match Verdict Extension) (n : ℕ)

/-- INTERNAL: **a marked packet is decided by its own ruleset**, and a packet without the
mark goes on.
SOURCE: fw_iptables.c:489-499, 551-583 -/
theorem decision_marked (fw : Firewall) (config : Config) (mark : BitVec 32)
    (name : RulesetName) (target : String)
    (hown : t.rules target = some (ownChain config name)) (rest : List IptablesRule)
    (p : Packet H) :
    decisionOf (walk R.semantics (runChain R.semantics t (n + 1))
        (markedRule fw config mark name target :: rest) p) =
      if markMatches mark fw.markmask p.mark then some (markedDecision R config name p.header)
      else decisionOf (walk R.semantics (runChain R.semantics t (n + 1)) rest p) := by
  have hmatch : (markedRule fw config mark name target).matches R.semantics p =
      markMatches mark fw.markmask p.mark := by
    simp [markedRule, Reading.sat]
  by_cases hm : markMatches mark fw.markmask p.mark = true
  · rw [if_pos hm]
    unfold markedDecision
    by_cases hempty : isEmptyRuleset config name = true
    · rw [if_pos hempty]
      exact decision_policy R _ _ rest (hmatch.trans hm) (by simp [markedRule, hempty])
    · rw [if_neg hempty]
      have hjump : (markedRule fw config mark name target).target = .jump target := by
        simp [markedRule, hempty]
      have hchain : ownChain config name =
          ⟨[.state [.RELATED, .ESTABLISHED]], .verdict .ACCEPT⟩ ::
            (rulesetRules config name ++ [rejectRule]) := by
        simp [ownChain, hempty]
      simp only [walk, hmatch, hm, if_true, hjump, runChain, hown, Option.getD_some, hchain]
      by_cases hest : established R p.header = true
      · have hsat : R.sat (.state [.RELATED, .ESTABLISHED]) p = true := by
          simpa [Reading.sat, established] using hest
        simp [hsat, hest, decisionOf]
      · have hsat : R.sat (.state [.RELATED, .ESTABLISHED]) p = false := by
          simpa [Reading.sat, established] using hest
        simp only [matches_cons, hsat, Bool.false_and, Bool.false_eq_true, if_false, hest]
        -- the chain ends in a verdict, so the jump does not come back
        obtain ⟨v, hwalk, hdec⟩ :=
          walk_ruleset_reject R (runChain R.semantics t n) config name p
        rw [hwalk]
        exact hdec
  · rw [if_neg hm, walk_cons_of_not_matches]
    rw [hmatch]
    simpa using hm

/-- INTERNAL: the rules that are tried when no mark has decided: the policy of an empty
ruleset, or the ruleset and a rejection.
SOURCE: fw_iptables.c:505-517, 588-592 -/
theorem decision_unmarked (call : String → Packet H → Outcome Verdict (Packet H))
    (config : Config) (name : RulesetName) (rest : List IptablesRule) (p : Packet H)
    (hrest : isEmptyRuleset config name = false → rest = [rejectRule]) :
    decisionOf (walk R.semantics call
        ((if isEmptyRuleset config name then
            [⟨[], (getEmptyRulesetPolicy config name).target⟩]
          else rulesetRules config name) ++ rest) p) =
      some (rulesetDecision R config name p.header) := by
  unfold rulesetDecision
  cases hempty : isEmptyRuleset config name with
  | true => exact decision_policy R call _ rest rfl rfl
  | false =>
    rw [hrest hempty]
    obtain ⟨v, hwalk, hdec⟩ := walk_ruleset_reject R call config name p
    rw [if_neg (by simp), if_neg (by simp), hwalk, hdec]

/-- INTERNAL: the rule for the segment size lets every packet go on.
SOURCE: fw_iptables.c:531-541 -/
theorem walk_mssRules (call : String → Packet H → Outcome Verdict (Packet H)) (config : Config)
    (rest : List IptablesRule) (p : Packet H) :
    walk R.semantics call (mssRules config ++ rest) p = walk R.semantics call rest p := by
  unfold mssRules
  split
  · simp only [List.singleton_append, walk]
    -- whatever the segment size, the packet goes on as it is
    exact ite_id _
  · rfl

variable (fw : Firewall) (config : Config)

/-- A packet without a mark has no mark at all, whatever the mask is. -/
theorem markMatches_zero {value : BitVec 32} (h : value ≠ 0) (mask : Option (BitVec 32)) :
    markMatches value mask 0 = false := by
  unfold markMatches
  cases mask <;> simpa using h.symm

theorem markClass_eq_blocked (mark : BitVec 32) :
    markClass fw mark = .blocked ↔ markMatches fw.fwMarkBlocked fw.markmask mark = true := by
  unfold markClass
  split_ifs <;> simp_all

theorem markClass_eq_trusted {mark : BitVec 32}
    (hblocked : markMatches fw.fwMarkBlocked fw.markmask mark = false) :
    markClass fw mark = .trusted ↔ markMatches fw.fwMarkTrusted fw.markmask mark = true := by
  unfold markClass
  split_ifs <;> simp_all

/-- INTERNAL: the packets the router forwards.
SOURCE: fw_iptables.c:519-593 -/
theorem decision_internet
    (htrusted : t.rules CHAIN_TRUSTED = some (ownChain config .trustedUsers))
    (hauthenticated : t.rules CHAIN_AUTHENTICATED = some (ownChain config .authenticatedUsers))
    (p : Packet H) :
    decisionOf (walk R.semantics (runChain R.semantics t (n + 1)) (internetChain fw config) p) =
      some (internetPolicy R config (markClass fw p.mark) p.header) := by
  have hrest := decision_unmarked R (runChain R.semantics t (n + 1)) config
    .preauthenticatedUsers [rejectRule] p fun _ => rfl
  unfold internetChain preauthenticatedRules
  simp only [List.append_assoc, List.cons_append, List.nil_append, decision_verdict,
    walk_mssRules, decision_marked R t n fw config _ _ _ htrusted,
    decision_marked R t n fw config _ _ _ hauthenticated]
  rw [hrest]
  unfold internetPolicy markClass
  cases hblocked : markMatches fw.fwMarkBlocked fw.markmask p.mark
  · cases hinvalid : R.state .INVALID p.header
    · cases htrust : markMatches fw.fwMarkTrusted fw.markmask p.mark <;>
        cases hauth : markMatches fw.fwMarkAuthenticated fw.markmask p.mark <;>
        simp [Reading.sat, hblocked, hinvalid]
    · simp [Reading.sat, hinvalid, decisionOf]
  · simp [Reading.sat, hblocked, decisionOf]

/-- INTERNAL: the packets for the router itself.
SOURCE: fw_iptables.c:465-517 -/
theorem decision_router
    (htrusted : t.rules CHAIN_TRUSTED_TO_ROUTER = some (ownChain config .trustedUsersToRouter))
    (p : Packet H) :
    decisionOf (walk R.semantics (runChain R.semantics t (n + 1)) (routerChain fw config) p) =
      some (routerPolicy R config (markClass fw p.mark) p.header) := by
  have hrest := decision_unmarked R (runChain R.semantics t (n + 1)) config .usersToRouter
    (if isEmptyRuleset config .usersToRouter then [] else [rejectRule]) p fun h => by rw [h]; rfl
  have htail : (if isEmptyRuleset config .usersToRouter then
        [⟨[], (getEmptyRulesetPolicy config .usersToRouter).target⟩]
      else rulesetRules config .usersToRouter ++ [rejectRule] : List IptablesRule) =
      (if isEmptyRuleset config .usersToRouter then
        [⟨[], (getEmptyRulesetPolicy config .usersToRouter).target⟩]
      else rulesetRules config .usersToRouter) ++
        if isEmptyRuleset config .usersToRouter then [] else [rejectRule] := by
    cases isEmptyRuleset config .usersToRouter <;> simp
  unfold routerChain
  rw [htail]
  simp only [List.cons_append, List.nil_append, decision_verdict,
    decision_marked R t n fw config _ _ _ htrusted]
  rw [hrest]
  unfold routerPolicy established
  cases hblocked : markMatches fw.fwMarkBlocked fw.markmask p.mark with
  | true =>
    rw [if_pos (Or.inl ((markClass_eq_blocked fw p.mark).mpr hblocked))]
    simp [Reading.sat, hblocked, decisionOf]
  | false =>
    have hclass : markClass fw p.mark ≠ .blocked := by simp [markClass_eq_blocked, hblocked]
    cases hinvalid : R.state .INVALID p.header with
    | true => simp [Reading.sat, hinvalid, decisionOf]
    | false =>
      simp only [Reading.sat, hblocked, hinvalid, decisionOf, hclass,
        markClass_eq_trusted fw hblocked, List.all_cons, List.all_nil, List.any_cons,
        List.any_nil, Bool.or_false, Bool.and_true, Bool.and_assoc, Bool.false_eq_true, or_false,
        if_false, apply_ite some]

end Marked

/-! ## The chains of a started firewall -/

/-- **The filter chains implement the rulesets**: when no command of `iptables_fw_init`
failed, every packet, whatever its mark, gets from `ndsNET` and from `ndsRTR` what the
rulesets say about it.
SOURCE: fw_iptables.c:460-593 -/
theorem filter_chains_implement_rulesets (R : Reading H) (out : Outside) (config : Config)
    (fw : Firewall) (h : Host) (hclean : (runOn out (iptablesFwInit config fw) h).2.clean)
    (p : Packet H) :
    let started := runOn out (iptablesFwInit config fw) h
    let cls := markClass started.1.2 p.mark
    decisionOf (runTable R started.2.tables .filter CHAIN_TO_INTERNET p) =
        some (internetPolicy R config cls p.header) ∧
      decisionOf (runTable R started.2.tables .filter CHAIN_TO_ROUTER p) =
        some (routerPolicy R config cls p.header) := by
  obtain ⟨hchains, -, -⟩ := fwInit_ready hclean
  obtain ⟨hrouter, htoRouter, hinternet, htrusted, hauthenticated⟩ := hchains.filter
  refine ⟨?_, ?_⟩
  · unfold runTable runChain
    rw [hinternet, Option.getD_some]
    exact decision_internet R _ 1 _ config htrusted hauthenticated p
  · unfold runTable runChain
    rw [hrouter, Option.getD_some]
    exact decision_router R _ 1 _ config htoRouter p

/-- A configuration that lets unauthenticated clients ask for names only. -/
def sampleRulesets : Config where
  rulesets name := { defaultRulesets name with rules :=
    [{ target := .log }, { target := .accept, protocol := some "udp".toList, port := some "53".toList }] }

/-- An unmarked packet on a router started with these rulesets.
SOURCE: fw_iptables.c:588-592 -/
theorem filter_chains_implement_rulesets_sample :
    decisionOf (runTable macReading
        (runOn obligingMachine (iptablesFwInit sampleRulesets {}) emptyRouter).2.tables .filter
        CHAIN_TO_INTERNET ⟨⟨"00:11:22:33:44:55".toList, by decide⟩, 0⟩) = some .reject := by
  have hpolicy := (filter_chains_implement_rulesets macReading obligingMachine sampleRulesets {}
    emptyRouter (by decide +kernel) ⟨⟨"00:11:22:33:44:55".toList, by decide⟩, 0⟩).1
  exact hpolicy.trans (by decide +kernel)

end WifiCat.Analysis
