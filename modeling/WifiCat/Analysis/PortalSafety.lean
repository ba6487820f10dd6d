import WifiCat.Analysis.PacketMarks

/-!
# Unauthenticated and blocked packets

A packet that comes from nobody the portal knows has, after the three chains, no mark or
the blocked mark, and neither is taken for a trusted or an authenticated one.  A blocked
packet has the blocked mark, except where an authenticated client's mark was ORed into it
first: then the bits of both are there, and the filter rules see neither.
-/

set_option autoImplicit false

namespace WifiCat.Analysis

open CommandProgram Netfilter Scan

variable {H : Type} (R : Reading H) {fw : Firewall} {config : Config} {ts : Tables}

/-! ## Mark rules -/

/-- INTERNAL: every mark is compared under the one mask. -/
def MasksAre (fw : Firewall) (rs : List IptablesRule) : Prop :=
  ∀ r ∈ rs, ∀ value mask, Match.mark value mask ∈ r.conds → mask = fw.markmask

theorem MasksAre.append {rs rs' : List IptablesRule} (h : MasksAre fw rs) (h' : MasksAre fw rs') :
    MasksAre fw (rs ++ rs') := by
  intro r hr
  rcases List.mem_append.mp hr with hr | hr
  · exact h r hr
  · exact h' r hr

theorem masksAre_ruleset (fw : Firewall) (config : Config) (name : RulesetName) :
    MasksAre fw (rulesetRules config name) := by
  intro r hr value mask hm
  obtain ⟨rule, -, rfl⟩ := List.mem_map.mp hr
  obtain ⟨target, protocol, port, destination⟩ := rule
  cases destination <;> cases protocol <;> cases port <;> simp [compileRule] at hm

theorem masksAre_nat (fw : Firewall) (config : Config) :
    MasksAre fw (natOutgoingChain fw config) := by
  refine MasksAre.append (MasksAre.append ?_ (masksAre_ruleset fw config _)) ?_ <;>
    simp [MasksAre]

theorem masksAre_router (fw : Firewall) (config : Config) :
    MasksAre fw (routerChain fw config) := by
  refine MasksAre.append (by simp [MasksAre, markedRule]) ?_
  split
  · simp [MasksAre]
  · exact (masksAre_ruleset fw config _).append (by simp [MasksAre, rejectRule])

theorem masksAre_internet (fw : Firewall) (config : Config) :
    MasksAre fw (internetChain fw config) := by
  have hmss : MasksAre fw (mssRules config) := by
    unfold mssRules
    split <;> simp [MasksAre]
  have hpre : MasksAre fw (preauthenticatedRules config) := by
    unfold preauthenticatedRules
    split
    · simp [MasksAre]
    · exact masksAre_ruleset fw config _
  refine MasksAre.append (MasksAre.append (MasksAre.append (MasksAre.append ?_ hmss) ?_) hpre) ?_
  · simp [MasksAre]
  · simp [MasksAre, markedRule]
  · simp [MasksAre, rejectRule]

/-- A mark is seen unchanged under a mask that holds its bits. -/
theorem and_or_left_self (a b c : BitVec 32) : a &&& (a ||| b ||| c) = a := by
  refine BitVec.eq_of_getLsbD_eq fun i _ => ?_
  simp only [BitVec.getLsbD_and, BitVec.getLsbD_or]
  cases a.getLsbD i <;> simp

/-- INTERNAL: no mark and the blocked mark are neither the trusted nor the authenticated
one. -/
theorem markMatches_unknown (hready : MarksReady config fw) {mark value : BitVec 32}
    (hmark : mark = 0 ∨ mark = fw.fwMarkBlocked)
    (hvalue : value = fw.fwMarkAuthenticated ∨ value = fw.fwMarkTrusted) :
    markMatches value fw.markmask mark = false := by
  obtain ⟨hbt, -, hab, -, ht, ha⟩ := hready.accepted
  rw [hready.authenticated, hready.trusted] at hvalue
  rcases hmark with rfl | rfl
  · refine markMatches_zero ?_ _
    rcases hvalue with rfl | rfl
    · exact ha
    · exact ht
  · rw [hready.blocked]
    have hne : config.fwMarkBlocked ≠ value := by
      rcases hvalue with rfl | rfl
      · exact hab.symm
      · exact hbt
    rcases hready.markmask with hnone | hsome
    · simpa [markMatches, hnone] using hne
    · simpa [markMatches, hsome, and_or_left_self] using hne

/-! ## The portal cannot be bypassed -/

/-- The chains that test for a trusted or an authenticated mark. -/
def markedPlaces : List Place :=
  [(.nat, CHAIN_OUTGOING), (.filter, CHAIN_TO_INTERNET), (.filter, CHAIN_TO_ROUTER)]

/-- The packet as mangle `PREROUTING` leaves it. -/
def marked (ts : Tables) (p : Packet H) : Packet H := { p with mark := preroutingMark R ts 3 p }

/-- INTERNAL: **a packet from nobody known** has no mark, or the blocked one. -/
theorem unknown_mark {w : World} (hstate : DaemonState config w ts) {p : Packet H}
    (hmark : p.mark = 0) (huntrusted : onList R w.config .trusted p.header = false)
    (hunknown : ∀ c ∈ authenticatedClients w.fw w.clients, fromClient R c p.header = false) :
    preroutingMark R ts 3 p =
      if onGateway R config p.header && macBlocked R w.config p.header then w.fw.fwMarkBlocked
      else 0 := by
  obtain ⟨mark, heq, hsame, -⟩ := preroutingMark_eq R hstate p
  rw [heq, hsame hunknown, huntrusted, hmark, markIf_mark, markIf_mark]
  cases onGateway R config p.header <;> cases macBlocked R w.config p.header <;>
    cases w.fw.markop <;> simp [MarkOp.apply]

theorem mem_authenticatedClients {cl : ClientList} {c : Client} :
    c ∈ authenticatedClients fw cl ↔
      c ∈ cl.firstclient ∧ c.fwConnectionState = fw.fwMarkAuthenticated := by
  simp [authenticatedClients]

/-- **The portal cannot be bypassed**: a packet without a mark, whose MAC address is not
trusted and that comes from no authenticated client, matches no rule for authenticated or
trusted marks.
SOURCE: fw_iptables.c:278-312, 367-444, 746-800, auth.c:91-134 -/
theorem portal_not_bypassed (R : Reading H) (out : Outside) (config : Config)
    (requests : List Request) (h : Host) (w : World) (h' : Host)
    (hreach : Reaches out config requests h w h') (p : Packet H) (hmark : p.mark = 0)
    (huntrusted : onList R w.config .trusted p.header = false)
    (hunknown : ∀ c ∈ w.clients.firstclient, c.fwConnectionState = w.fw.fwMarkAuthenticated →
      fromClient R c p.header = false) :
    ∀ x ∈ markedPlaces, ∀ rs, (h'.tables x.1).rules x.2 = some rs → ∀ r ∈ rs, ∀ value mask,
      Match.mark value mask ∈ r.conds →
      value = w.fw.fwMarkAuthenticated ∨ value = w.fw.fwMarkTrusted →
      r.matches R.semantics (marked R h'.tables p) = false := by
  have hstate := hreach.state
  have hseen := unknown_mark R hstate hmark huntrusted fun c hc =>
    hunknown c (mem_authenticatedClients.mp hc).1 (mem_authenticatedClients.mp hc).2
  have hmasks : ∀ x ∈ markedPlaces, ∀ rs, (h'.tables x.1).rules x.2 = some rs →
      MasksAre w.fw rs := by
    intro x hx rs hrs
    simp only [markedPlaces, List.mem_cons, List.not_mem_nil, or_false] at hx
    rcases hx with rfl | rfl | rfl
    · rw [hstate.portal.nat] at hrs
      cases hrs
      exact masksAre_nat w.fw config
    · rw [hstate.portal.filter.internet] at hrs
      cases hrs
      exact masksAre_internet w.fw config
    · rw [hstate.portal.filter.router] at hrs
      cases hrs
      exact masksAre_router w.fw config
  intro x hx rs hrs r hr value mask hcond hvalue
  have hunseen : markMatches value mask (marked R h'.tables p).mark = false := by
    rw [hmasks x hx rs hrs r hr value mask hcond]
    refine markMatches_unknown hstate.marks ?_ hvalue
    change preroutingMark R h'.tables 3 p = 0 ∨ preroutingMark R h'.tables 3 p = _
    rw [hseen]
    split
    · exact Or.inr rfl
    · exact Or.inl rfl
  -- one condition of the rule fails, so the rule does not match
  unfold Rule.matches
  rw [List.all_eq_false]
  exact ⟨_, hcond, by simpa [Reading.semantics, Reading.sat] using hunseen⟩

/-- The packets of the first and of the second host of the sample network. -/
def samplePacket : Packet MacText := ⟨⟨"00:11:22:33:44:55".toList, by decide⟩, 0⟩
/-- See `samplePacket`. -/
def otherPacket : Packet MacText := ⟨⟨"66:77:88:99:aa:bb".toList, by decide⟩, 0⟩

/-- A client logs in; the other host on the network has not. -/
theorem portal_not_bypassed_sample :
    ∃ w h', Reaches obligingMachine {} [.ndsctlAuth (sampleMoment 1) "10.0.0.2".toList]
        emptyRouter w h' ∧
      ∀ x ∈ markedPlaces, ∀ rs, (h'.tables x.1).rules x.2 = some rs → ∀ r ∈ rs, ∀ value mask,
        Match.mark value mask ∈ r.conds →
        value = w.fw.fwMarkAuthenticated ∨ value = w.fw.fwMarkTrusted →
        r.matches macReading.semantics (marked macReading h'.tables otherPacket) = false := by
  have hcheck : checkRun obligingMachine {} [.ndsctlAuth (sampleMoment 1) "10.0.0.2".toList]
      emptyRouter (fun w => !onList macReading w.config .trusted otherPacket.header &&
        w.clients.firstclient.all fun c => !fromClient macReading c otherPacket.header) = true := by
    decide +kernel
  obtain ⟨w, h', hreach, hstate⟩ := reaches_of_checkRun hcheck
  simp only [Bool.and_eq_true, Bool.not_eq_true', List.all_eq_true] at hstate
  exact ⟨w, h', hreach, portal_not_bypassed macReading _ _ _ _ _ _ hreach _ rfl hstate.1
    fun c hc _ => hstate.2 c hc⟩

/-! ## Blocked packets -/

/-- The first rule of a filter chain matches the packet, and the packet is dropped. -/
def DroppedFirst (ts : Tables) (chain : String) (p : Packet H) : Prop :=
  (∃ r rs, (ts .filter).rules chain = some (r :: rs) ∧ r.matches R.semantics p = true) ∧
    (runTable R ts .filter chain p).verdict = some .DROP

/-- The packet is dropped by the first rules of `ndsNET` and `ndsRTR`. -/
def BlockedDropped (ts : Tables) (p : Packet H) : Prop :=
  DroppedFirst R ts CHAIN_TO_INTERNET (marked R ts p) ∧
    DroppedFirst R ts CHAIN_TO_ROUTER (marked R ts p)

/-- INTERNAL: the first rule of either chain drops the packets with the blocked mark. -/
theorem droppedFirst_iff {chain : String} {rs : List IptablesRule}
    (hrules : (ts .filter).rules chain =
      some (⟨[.mark fw.fwMarkBlocked fw.markmask], .verdict .DROP⟩ :: rs)) (p : Packet H) :
    DroppedFirst R ts chain p ↔ markMatches fw.fwMarkBlocked fw.markmask p.mark = true := by
  have hmatch : Rule.matches R.semantics
      (⟨[.mark fw.fwMarkBlocked fw.markmask], .verdict .DROP⟩ : IptablesRule) p =
        markMatches fw.fwMarkBlocked fw.markmask p.mark := by
    simp [Reading.sat]
  constructor
  · rintro ⟨⟨r, rs', hr, hm⟩, -⟩
    rw [hrules] at hr
    cases hr
    rwa [hmatch] at hm
  · intro hm
    refine ⟨⟨_, rs, hrules, hmatch.trans hm⟩, ?_⟩
    unfold runTable runChain
    rw [hrules, Option.getD_some]
    simp [walk, hmatch, hm]

theorem blockedDropped_iff {w : World} (hstate : DaemonState config w ts) (p : Packet H) :
    BlockedDropped R ts p ↔
      markMatches w.fw.fwMarkBlocked w.fw.markmask (preroutingMark R ts 3 p) = true := by
  unfold BlockedDropped
  rw [droppedFirst_iff R hstate.portal.filter.internet,
    droppedFirst_iff R hstate.portal.filter.router]
  exact and_self_iff

/-- The default marks.
SOURCE: conf.c:316-319 -/
def DefaultMarks (config : Config) : Prop :=
  config.fwMarkAuthenticated = 0x400 ∧ config.fwMarkTrusted = 0x200 ∧ config.fwMarkBlocked = 0x100

/-- INTERNAL: with the default marks, a mark with the authenticated bit is not seen as
blocked. -/
theorem not_blocked_of_bit (hready : MarksReady config fw) (hdefault : DefaultMarks config)
    {mark : BitVec 32} (hbit : mark.getLsbD 10 = true) :
    markMatches fw.fwMarkBlocked fw.markmask mark = false := by
  obtain ⟨ha, ht, hb⟩ := hdefault
  rw [← Bool.not_eq_true]
  intro hmatch
  rw [hready.blocked, hb] at hmatch
  rcases hready.markmask with hnone | hsome
  · simp only [markMatches, hnone, beq_iff_eq] at hmatch
    rw [hmatch] at hbit
    exact absurd hbit (by decide)
  · rw [hb, ht, ha] at hsome
    simp only [markMatches, hsome, beq_iff_eq] at hmatch
    have h10 := congrArg (fun v : BitVec 32 => v.getLsbD 10) hmatch
    simp only [BitVec.getLsbD_and, hbit] at h10
    exact absurd h10 (by decide)

/-- INTERNAL: a client's mark has the authenticated bit. -/
theorem bit_of_clientMark (hready : MarksReady config fw) (hdefault : DefaultMarks config)
    (client : Client) : (BitVec.ofNat 32 (clientMark fw client)).getLsbD 10 = true := by
  rw [clientMark_eq_or, BitVec.ofNat_or, BitVec.ofNat_toNat, hready.authenticated, hdefault.1]
  simp

/-- INTERNAL: the blocked mark alone is seen as blocked. -/
theorem blocked_seen (hready : MarksReady config fw) :
    markMatches fw.fwMarkBlocked fw.markmask fw.fwMarkBlocked = true := by
  rcases hready.markmask with hnone | hsome
  · simp [markMatches, hnone]
  · rw [← hready.blocked] at hsome
    simp [markMatches, hsome, and_or_left_self]

/-- INTERNAL: what decides about a blocked packet, in a state of the daemon. -/
theorem blockedDropped_state {w : World} (hstate : DaemonState config w ts)
    (hdefault : DefaultMarks config) {p : Packet H} (hmark : p.mark = 0)
    (hinterface : R.inInterface config.gwInterface p.header = true)
    (huntrusted : onList R w.config .trusted p.header = false)
    (hblocked : macBlocked R w.config p.header = true) :
    BlockedDropped R ts p ↔
      R.source config.gwIprange p.header = true ∧
        (w.fw.markop = .setMark ∨
          ∀ c ∈ authenticatedClients w.fw w.clients, fromClient R c p.header = false) := by
  have hgate : onGateway R config p.header = R.source config.gwIprange p.header := by
    simp [onGateway, hinterface]
  have hzero : markMatches w.fw.fwMarkBlocked w.fw.markmask 0 = false := by
    refine markMatches_zero ?_ _
    rw [hstate.marks.blocked]
    exact hstate.marks.accepted.2.2.2.1
  obtain ⟨mark, heq, hsame, hbits⟩ := preroutingMark_eq R hstate p
  rw [blockedDropped_iff R hstate, heq, hgate, huntrusted, hblocked, markIf_mark, markIf_mark]
  cases hsource : R.source config.gwIprange p.header with
  | false => simpa [hmark] using hzero
  | true =>
    simp only [if_true, Bool.false_eq_true, if_false, true_and]
    cases hop : w.fw.markop with
    | setMark => simp [MarkOp.apply, blocked_seen hstate.marks]
    | orMark =>
      simp only [MarkOp.apply, reduceCtorEq, false_or]
      constructor
      · intro hseen c hc
        by_contra hfrom
        -- the bit of the client's mark survives, and hides the blocked mark
        have hbit := hbits hop c hc (by simpa using hfrom) 10
          (bit_of_clientMark hstate.marks hdefault c)
        have hboth : (mark ||| w.fw.fwMarkBlocked).getLsbD 10 = true := by simp [hbit]
        rw [not_blocked_of_bit hstate.marks hdefault hboth] at hseen
        cases hseen
      · intro hunknown
        rw [hsame hunknown, hmark]
        simpa using blocked_seen hstate.marks

/-- **When a blocked MAC is dropped**: with the default marks, a packet on the gateway's
interface whose MAC address is blocked and not trusted is dropped by the first rules of
`ndsNET` and `ndsRTR` exactly when it comes from the gateway's range, and the kernel sets
marks instead of ORing them or the packet comes from no authenticated client.
SOURCE: fw_iptables.c:117-150, 367-406, 469-478, 524-526 -/
theorem blocked_dropped_iff (R : Reading H) (out : Outside) (config : Config)
    (requests : List Request) (h : Host) (w : World) (h' : Host)
    (hreach : Reaches out config requests h w h') (hdefault : DefaultMarks config)
    (p : Packet H) (hmark : p.mark = 0)
    (hinterface : R.inInterface config.gwInterface p.header = true)
    (huntrusted : onList R w.config .trusted p.header = false)
    (hblocked : macBlocked R w.config p.header = true) :
    BlockedDropped R h'.tables p ↔
      R.source config.gwIprange p.header = true ∧
        (w.fw.markop = .setMark ∨
          ∀ c ∈ w.clients.firstclient, c.fwConnectionState = w.fw.fwMarkAuthenticated →
            fromClient R c p.header = false) := by
  rw [blockedDropped_state R hreach.state hdefault hmark hinterface huntrusted hblocked]
  simp only [mem_authenticatedClients, and_imp]

/-- A blocked host that never logged in. -/
theorem blocked_dropped_sample :
    ∃ w h', Reaches obligingMachine {} [.ndsctlMac .block "00:11:22:33:44:55".toList]
        emptyRouter w h' ∧ BlockedDropped macReading h'.tables samplePacket := by
  have hcheck : checkRun obligingMachine {} [.ndsctlMac .block "00:11:22:33:44:55".toList]
      emptyRouter (fun w => !onList macReading w.config .trusted samplePacket.header &&
        macBlocked macReading w.config samplePacket.header &&
        w.clients.firstclient.isEmpty) = true := by
    decide +kernel
  obtain ⟨w, h', hreach, hstate⟩ := reaches_of_checkRun hcheck
  simp only [Bool.and_eq_true, Bool.not_eq_true', List.isEmpty_iff] at hstate
  obtain ⟨⟨huntrusted, hblocked⟩, hclients⟩ := hstate
  refine ⟨w, h', hreach, (blocked_dropped_iff macReading _ _ _ _ _ _ hreach ⟨rfl, rfl, rfl⟩
    samplePacket rfl rfl huntrusted hblocked).mpr ⟨rfl, Or.inr fun c hc => ?_⟩⟩
  rw [hclients] at hc
  cases hc

/-- A client logs in, and its MAC address is blocked afterwards: its packets carry the mark
`0xa500`, which under the mask `0x700` is not the blocked mark.
SOURCE: fw_iptables.c:281, 774 -/
theorem blocked_not_dropped :
    ¬∀ (R : Reading MacText) (out : Outside) (config : Config) (requests : List Request)
      (h : Host) (w : World) (h' : Host), Reaches out config requests h w h' →
      DefaultMarks config → ∀ p : Packet MacText, p.mark = 0 →
      R.inInterface config.gwInterface p.header = true →
      onList R w.config .trusted p.header = false → macBlocked R w.config p.header = true →
      BlockedDropped R h'.tables p := by
  intro hall
  have hcheck : checkRun obligingMachine {} [.ndsctlAuth (sampleMoment 1) "10.0.0.2".toList,
      .ndsctlMac .block "00:11:22:33:44:55".toList] emptyRouter (fun w =>
        !onList macReading w.config .trusted samplePacket.header &&
        macBlocked macReading w.config samplePacket.header && decide (w.fw.markop = .orMark) &&
        (authenticatedClients w.fw w.clients).any fun c =>
          fromClient macReading c samplePacket.header) = true := by
    decide +kernel
  obtain ⟨w, h', hreach, hstate⟩ := reaches_of_checkRun hcheck
  simp only [Bool.and_eq_true, Bool.not_eq_true', decide_eq_true_eq, List.any_eq_true] at hstate
  obtain ⟨⟨⟨huntrusted, hblocked⟩, hop⟩, c, hc, hfrom⟩ := hstate
  have hdropped := hall macReading _ _ _ _ _ _ hreach ⟨rfl, rfl, rfl⟩ samplePacket rfl rfl
    huntrusted hblocked
  obtain ⟨-, hset | hunknown⟩ := (blockedDropped_state macReading hreach.state ⟨rfl, rfl, rfl⟩
    rfl rfl huntrusted hblocked).mp hdropped
  · rw [hop] at hset
    cases hset
  · rw [hunknown c hc] at hfrom
    cases hfrom

end WifiCat.Analysis
