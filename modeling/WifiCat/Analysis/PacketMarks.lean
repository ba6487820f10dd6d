import WifiCat.Analysis.AddressSources
import WifiCat.Analysis.FilterPolicy
import WifiCat.Analysis.MarkAlgebra

/-!
# The mark a packet gets

The three chains that mangle `PREROUTING` jumps to only set marks: `ndsOUT` the mark of
an authenticated client, `ndsBLK` the blocked mark, `ndsTRU` the trusted mark.  Each has
a lemma that says what it leaves of a packet, and `preroutingMark_eq` puts them together.
What the filter and nat rules make of the mark decides the rest.
-/

set_option autoImplicit false

namespace WifiCat.Analysis

open CommandProgram Netfilter Scan

variable {H : Type} (R : Reading H) {fw : Firewall} {config : Config} {ts : Tables}

/-! ## Rules that set marks -/

/-- The packet with its mark set, when a condition holds. -/
def markIf (b : Bool) (op : MarkOp) (value : BitVec 32) (p : Packet H) : Packet H :=
  if b then { p with mark := op.apply value p.mark } else p

@[simp] theorem markIf_header (b : Bool) (op : MarkOp) (value : BitVec 32) (p : Packet H) :
    (markIf b op value p).header = p.header := by
  unfold markIf
  split <;> rfl

theorem markIf_mark (b : Bool) (op : MarkOp) (value : BitVec 32) (p : Packet H) :
    (markIf b op value p).mark = if b then op.apply value p.mark else p.mark := by
  unfold markIf
  split <;> rfl

theorem MarkOp.apply_apply (op : MarkOp) (value mark : BitVec 32) :
    op.apply value (op.apply value mark) = op.apply value mark := by
  cases op
  · simp [WifiCat.MarkOp.apply, BitVec.or_assoc]
  · rfl

/-- A rule looks at the header of a packet only. -/
def HeaderOnly (r : IptablesRule) : Prop :=
  ∀ m ∈ r.conds, ∀ value mask, m ≠ .mark value mask

theorem HeaderOnly.matches_eq {r : IptablesRule} (h : HeaderOnly r) {p q : Packet H}
    (hpq : q.header = p.header) : r.matches R.semantics q = r.matches R.semantics p := by
  have hsat : ∀ m ∈ r.conds, R.semantics.sat m q = R.semantics.sat m p := by
    intro m hm
    cases m with
    | mark value mask => exact absurd rfl (h _ hm value mask)
    | _ => simp [Reading.semantics, Reading.sat, hpq]
  unfold Rule.matches
  rw [Bool.eq_iff_iff, List.all_eq_true, List.all_eq_true]
  exact forall₂_congr fun m hm => by rw [hsat m hm]

@[simp] theorem semantics_run (x : Extension) (p : Packet H) : R.semantics.run x p = x.run p := rfl

theorem fire_mark {r : IptablesRule} {op : MarkOp} {value : ℕ}
    (htarget : r.target = .ext (.MARK op value)) (p : Packet H) :
    r.fire R.semantics p = markIf (r.matches R.semantics p) op (BitVec.ofNat 32 value) p := by
  unfold Rule.fire
  rw [htarget]
  rfl

/-- INTERNAL: **rules that set one mark** set it when one of them matches. -/
theorem foldl_fire_mark {rs : List IptablesRule} {op : MarkOp} {value : BitVec 32}
    (htarget : ∀ r ∈ rs, r.target = .ext (.MARK op value.toNat))
    (hheader : ∀ r ∈ rs, HeaderOnly r) (p : Packet H) :
    rs.foldl (fun p r => r.fire R.semantics p) p =
      markIf (rs.any fun r => r.matches R.semantics p) op value p := by
  have hfire : ∀ r ∈ rs, ∀ q : Packet H, r.fire R.semantics q =
      markIf (r.matches R.semantics q) op value q := by
    intro r hr q
    rw [fire_mark R (htarget r hr), BitVec.ofNat_toNat, BitVec.setWidth_eq]
  induction rs generalizing p with
  | nil => rfl
  | cons r rs ih =>
    rw [List.foldl_cons, hfire r (by simp), ih (fun r' hr' => htarget r' (by simp [hr']))
      (fun r' hr' => hheader r' (by simp [hr'])) _ fun r' hr' => hfire r' (by simp [hr'])]
    have hany : (rs.any fun r' => r'.matches R.semantics
        (markIf (r.matches R.semantics p) op value p)) =
          rs.any fun r' => r'.matches R.semantics p := by
      rw [Bool.eq_iff_iff, List.any_eq_true, List.any_eq_true]
      refine exists_congr fun r' => and_congr_right fun hr' => ?_
      rw [(hheader r' (by simp [hr'])).matches_eq R (markIf_header _ op value p)]
    rw [hany, List.any_cons]
    cases r.matches R.semantics p <;> cases rs.any fun r' => r'.matches R.semantics p <;>
      simp [markIf, MarkOp.apply_apply]

/-! ## The MAC chains -/

/-- The packet's source address is that of a MAC address on the list, as `iptables` reads
addresses. -/
def onList (config : Config) (l : MacListName) (h : H) : Bool :=
  (config.maclist l).any fun mac => readMac mac == readMac (R.srcMac h).val

/-- The MAC mechanism blocks the packet.
SOURCE: conf.h:41-42 -/
def macBlocked (config : Config) (h : H) : Bool :=
  match config.macmechanism with
  | .block => onList R config .blocked h
  | .allow => !onList R config .allowed h

/-- INTERNAL: some rule of a list's addresses matches the packets from one of them. -/
theorem any_macRules {rules : List IptablesRule} {l : MacListName}
    (hperm : rules.Perm (macRules fw l (config.maclist l))) (p : Packet H) :
    (rules.any fun r => r.matches R.semantics p) = onList R config l p.header := by
  have hrule : ∀ mac, (readRule (macRule fw l mac)).matches R.semantics p =
      (readMac mac == readMac (R.srcMac p.header).val) := by
    intro mac
    have hsat : ∀ target : Target Verdict Extension,
        Rule.matches R.semantics (⟨[.macSource (readMac mac)], target⟩ : IptablesRule) p =
          (readMac mac == readMac (R.srcMac p.header).val) := by
      intro target
      rw [matches_cons, matches_nil, Bool.and_true, Reading.sat]
      exact Bool.beq_comm
    cases l <;> exact hsat _
  rw [hperm.any_eq]
  unfold macRules onList
  rw [List.any_map]
  exact congrArg (fun f => (config.maclist l).any f) (funext hrule)

theorem headerOnly_macRule (fw : Firewall) (l : MacListName) (mac : Text) :
    HeaderOnly (readRule (macRule fw l mac)) := by
  intro m hm value mask he
  subst he
  cases l <;> simp [macRule, trustRule, blockRule, allowRule, readRule, Match.read] at hm

/-- INTERNAL: `ndsTRU` marks the packets from trusted addresses. -/
theorem runTable_trusted (hmacs : MacChains fw config ts) (p : Packet H) :
    runTable R ts .mangle CHAIN_TRUSTED p =
      .fell (markIf (onList R config .trusted p.header) fw.markop fw.fwMarkTrusted p) := by
  obtain ⟨rules, hrules, hperm⟩ := hmacs .trusted rfl
  have hmem : ∀ r ∈ rules, ∃ mac, r = readRule (macRule fw .trusted mac) := by
    intro r hr
    obtain ⟨mac, -, rfl⟩ := List.mem_map.mp (hperm.mem_iff.mp hr)
    exact ⟨mac, rfl⟩
  have htarget : ∀ r ∈ rules, r.target = .ext (.MARK fw.markop fw.fwMarkTrusted.toNat) := by
    intro r hr
    obtain ⟨mac, rfl⟩ := hmem r hr
    rfl
  have hheader : ∀ r ∈ rules, HeaderOnly r := by
    intro r hr
    obtain ⟨mac, rfl⟩ := hmem r hr
    exact headerOnly_macRule fw .trusted mac
  simp only [macChain, macTail, List.append_nil] at hrules
  unfold runTable runChain
  rw [hrules, Option.getD_some, walk_of_ext _ _ fun r hr => ⟨_, htarget r hr⟩,
    foldl_fire_mark R htarget hheader, any_macRules R hperm]

/-- INTERNAL: `ndsBLK` marks the packets the mechanism blocks, and the traversal goes on
behind it. -/
theorem runTable_blocked (hmacs : MacChains fw config ts) (p : Packet H) :
    runTable R ts .mangle CHAIN_BLOCKED p =
        .fell (markIf (macBlocked R config p.header) fw.markop fw.fwMarkBlocked p) ∨
      runTable R ts .mangle CHAIN_BLOCKED p =
        .returned (markIf (macBlocked R config p.header) fw.markop fw.fwMarkBlocked p) := by
  unfold macBlocked
  cases hmech : config.macmechanism with
  | block =>
    obtain ⟨rules, hrules, hperm⟩ := hmacs .blocked (by simp [Config.usesList,
      MacListName.mechanism, hmech])
    have htarget : ∀ r ∈ rules, r.target = .ext (.MARK fw.markop fw.fwMarkBlocked.toNat) := by
      intro r hr
      obtain ⟨mac, -, rfl⟩ := List.mem_map.mp (hperm.mem_iff.mp hr)
      rfl
    have hheader : ∀ r ∈ rules, HeaderOnly r := by
      intro r hr
      obtain ⟨mac, -, rfl⟩ := List.mem_map.mp (hperm.mem_iff.mp hr)
      exact headerOnly_macRule fw .blocked mac
    simp only [macChain, macTail, List.append_nil] at hrules
    refine Or.inl ?_
    unfold runTable runChain
    rw [hrules, Option.getD_some, walk_of_ext _ _ fun r hr => ⟨_, htarget r hr⟩,
      foldl_fire_mark R htarget hheader, any_macRules R hperm]
  | allow =>
    obtain ⟨rules, hrules, hperm⟩ := hmacs .allowed (by simp [Config.usesList,
      MacListName.mechanism, hmech])
    have htarget : ∀ r ∈ rules, r.target = .ret := by
      intro r hr
      obtain ⟨mac, -, rfl⟩ := List.mem_map.mp (hperm.mem_iff.mp hr)
      rfl
    simp only [macChain, macTail] at hrules
    unfold runTable runChain
    rw [hrules, Option.getD_some, walk_returns_append _ _ htarget, any_macRules R hperm]
    cases onList R config .allowed p.header with
    | true => exact Or.inr (by simp [markIf])
    | false =>
      -- no address of the list is the packet's: the catch-all rule marks it
      refine Or.inl ?_
      simp [blockAllRule, walk, markIf, Extension.run]

/-! ## The chain of the clients -/

/-- The packet comes from the client, by the IP and MAC address of its rule.
SOURCE: fw_iptables.c:774 -/
def fromClient (client : Client) (h : H) : Bool :=
  R.source client.ip h && (readMac (R.srcMac h).val == readMac client.mac)

theorem matches_outgoingRule (client : Client) (p : Packet H) :
    (outgoingRule fw client).matches R.semantics p = fromClient R client p.header := by
  unfold outgoingRule outgoingMarkRule readRule fromClient
  simp [Match.read, Reading.sat]

/-- What a rule of `ndsOUT` is: one of traffic control, or an authenticated client's. -/
theorem outgoing_cases {cl : ClientList} {imq rs : List IptablesRule}
    (himq : ∀ r ∈ imq, IsImq r)
    (hperm : rs.Perm (imq ++ (authenticatedClients fw cl).map (outgoingRule fw)))
    {r : IptablesRule} (hr : r ∈ rs) :
    IsImq r ∨ ∃ c ∈ authenticatedClients fw cl, r = outgoingRule fw c := by
  rcases List.mem_append.mp (hperm.mem_iff.mp hr) with hr | hr
  · exact Or.inl (himq r hr)
  · obtain ⟨c, hc, rfl⟩ := List.mem_map.mp hr
    exact Or.inr ⟨c, hc, rfl⟩

/-- INTERNAL: one rule of `ndsOUT`: the header stays; the packet changes only if the rule
is a client's that it comes from; and an ORed mark keeps the bits there were. -/
theorem fire_outgoing {cl : ClientList} {r : IptablesRule}
    (hr : IsImq r ∨ ∃ c ∈ authenticatedClients fw cl, r = outgoingRule fw c) (p : Packet H) :
    (r.fire R.semantics p).header = p.header ∧
      ((∀ c ∈ authenticatedClients fw cl, fromClient R c p.header = false) →
        r.fire R.semantics p = p) ∧
      (fw.markop = .orMark → ∀ i, p.mark.getLsbD i = true →
        (r.fire R.semantics p).mark.getLsbD i = true) := by
  rcases hr with ⟨-, todev, htarget⟩ | ⟨c, hc, rfl⟩
  · have hfire : r.fire R.semantics p = p := by
      simp [Rule.fire, htarget, Extension.run]
    rw [hfire]
    exact ⟨rfl, fun _ => rfl, fun _ i hi => hi⟩
  · have hfire : (outgoingRule fw c).fire R.semantics p =
        markIf (fromClient R c p.header) fw.markop (BitVec.ofNat 32 (clientMark fw c)) p := by
      rw [fire_mark R rfl, matches_outgoingRule]
    rw [hfire]
    refine ⟨markIf_header _ _ _ p, fun hno => by simp [hno c hc, markIf], fun hop i hi => ?_⟩
    rw [markIf_mark, hop]
    split
    · simp [MarkOp.apply, hi]
    · exact hi

/-- INTERNAL: **`ndsOUT`** leaves the packets of other hosts alone; under the ORing mark
operator a client's packet keeps the bits it has and gets those of the client's mark. -/
theorem runTable_outgoing {cl : ClientList} (hrules : RulesAgree fw cl ts) (p : Packet H) :
    ∃ mark, runTable R ts .mangle CHAIN_OUTGOING p = .fell { p with mark := mark } ∧
      ((∀ c ∈ authenticatedClients fw cl, fromClient R c p.header = false) → mark = p.mark) ∧
      (fw.markop = .orMark → ∀ c ∈ authenticatedClients fw cl, fromClient R c p.header = true →
        ∀ i, (BitVec.ofNat 32 (clientMark fw c)).getLsbD i = true → mark.getLsbD i = true) := by
  obtain ⟨imq, rs, hrs, himq, hperm⟩ := hrules.outgoing
  have hcases := fun {r} hr => outgoing_cases himq hperm (r := r) hr
  have hext : ∀ r ∈ rs, ∃ x, r.target = .ext x := by
    intro r hr
    rcases hcases hr with ⟨-, todev, htarget⟩ | ⟨c, -, rfl⟩
    · exact ⟨_, htarget⟩
    · exact ⟨_, rfl⟩
  -- what one rule keeps, any stretch of the chain keeps
  have hfold : ∀ l ⊆ rs, ∀ q : Packet H,
      (l.foldl (fun p r => r.fire R.semantics p) q).header = q.header ∧
      ((∀ c ∈ authenticatedClients fw cl, fromClient R c q.header = false) →
        l.foldl (fun p r => r.fire R.semantics p) q = q) ∧
      (fw.markop = .orMark → ∀ i, q.mark.getLsbD i = true →
        (l.foldl (fun p r => r.fire R.semantics p) q).mark.getLsbD i = true) := by
    intro l
    induction l with
    | nil => exact fun _ q => ⟨rfl, fun _ => rfl, fun _ i hi => hi⟩
    | cons r l ih =>
      intro hsub q
      obtain ⟨hheader, hsame, hbit⟩ := fire_outgoing R (hcases (hsub (List.mem_cons_self ..))) q
      obtain ⟨hheader', hsame', hbit'⟩ :=
        ih (fun r' hr' => hsub (List.mem_cons_of_mem _ hr')) (r.fire R.semantics q)
      refine ⟨hheader'.trans hheader, fun hno => ?_, fun hop i hi => hbit' hop i (hbit hop i hi)⟩
      rw [List.foldl_cons, hsame' (by rwa [hheader]), hsame hno]
  obtain ⟨hheader, hsame, -⟩ := hfold rs (List.Subset.refl rs) p
  refine ⟨(rs.foldl (fun p r => r.fire R.semantics p) p).mark, ?_, ?_, ?_⟩
  · unfold runTable runChain
    rw [hrs, Option.getD_some, walk_of_ext _ _ hext]
    rw [← hheader]
  · intro hno
    rw [hsame hno]
  · intro hop c hc hfrom i hi
    have hmem : outgoingRule fw c ∈ rs :=
      hperm.mem_iff.mpr (List.mem_append_right _ (List.mem_map_of_mem hc))
    obtain ⟨l₁, l₂, hsplit⟩ := List.append_of_mem hmem
    subst hsplit
    obtain ⟨hheader₁, -, -⟩ := hfold l₁ (by simp) p
    rw [List.foldl_append, List.foldl_cons]
    refine (hfold l₂ (by intro r hr; simp [hr]) _).2.2 hop i ?_
    rw [fire_mark R rfl, matches_outgoingRule, hheader₁, hfrom, markIf_mark, if_pos rfl, hop]
    simp [MarkOp.apply, hi]

/-! ## The three chains together -/

/-- The packet comes in on the gateway's interface, from an address of its range. -/
def onGateway (config : Config) (h : H) : Bool :=
  R.inInterface config.gwInterface h && R.source config.gwIprange h

theorem matches_gatewayJump (chain : String) (p : Packet H) :
    (gatewayJump config chain).matches R.semantics p = onGateway R config p.header := by
  unfold gatewayJump onGateway
  simp [Reading.sat]

/-- INTERNAL: a jump whose chain gives no verdict. -/
theorem walk_gatewayJump {call : String → Packet H → Outcome Verdict (Packet H)} {chain : String}
    {p q : Packet H} (hcall : call chain p = .fell q ∨ call chain p = .returned q)
    (rest : List IptablesRule) :
    walk R.semantics call (gatewayJump config chain :: rest) p =
      walk R.semantics call rest (if onGateway R config p.header then q else p) := by
  cases hgate : onGateway R config p.header with
  | true =>
    have htarget : (gatewayJump config chain).target = .jump chain := rfl
    simp only [walk, matches_gatewayJump, hgate, if_true, htarget]
    rcases hcall with hcall | hcall <;> rw [hcall]
  | false => simp [walk, matches_gatewayJump, hgate]

/-- INTERNAL: **the mark after mangle `PREROUTING`** of a packet without one: the mark of
`ndsOUT`, then the blocked mark, then the trusted mark.
SOURCE: fw_iptables.c:367-406 -/
theorem preroutingMark_eq {w : World} (hstate : DaemonState config w ts) (p : Packet H) :
    ∃ mark, preroutingMark R ts 3 p =
        (if onGateway R config p.header then
          (markIf (onList R w.config .trusted p.header) w.fw.markop w.fw.fwMarkTrusted
            (markIf (macBlocked R w.config p.header) w.fw.markop w.fw.fwMarkBlocked
              { p with mark := mark })).mark
        else p.mark) ∧
      ((∀ c ∈ authenticatedClients w.fw w.clients, fromClient R c p.header = false) →
        mark = p.mark) ∧
      (w.fw.markop = .orMark → ∀ c ∈ authenticatedClients w.fw w.clients,
        fromClient R c p.header = true → ∀ i,
        (BitVec.ofNat 32 (clientMark w.fw c)).getLsbD i = true → mark.getLsbD i = true) := by
  obtain ⟨rs, hrs⟩ := hstate.portal.prerouting
  obtain ⟨mark, hout, hother, hbits⟩ := runTable_outgoing R hstate.session.rules p
  refine ⟨mark, ?_, hother, hbits⟩
  have hblk := runTable_blocked R hstate.session.macs { p with mark := mark }
  have htru := runTable_trusted R hstate.session.macs
    (markIf (macBlocked R w.config p.header) w.fw.markop w.fw.fwMarkBlocked
      { p with mark := mark })
  unfold preroutingMark
  rw [hrs, Option.getD_some]
  simp only [List.cons_append, List.nil_append, List.take_succ_cons, List.take_zero]
  rw [walk_gatewayJump R (Or.inl hout)]
  cases hgate : onGateway R config p.header with
  | true =>
    rw [if_pos rfl, walk_gatewayJump R hblk, hgate, if_pos rfl, walk_gatewayJump R (Or.inl htru),
      markIf_header, hgate, if_pos rfl, walk_nil]
    simp
  | false =>
    have hpass : ∀ chain rest, walk R.semantics (runTable R ts .mangle)
        (gatewayJump config chain :: rest) p = walk R.semantics (runTable R ts .mangle) rest p := by
      intro chain rest
      rw [walk_cons_of_not_matches]
      rw [matches_gatewayJump, hgate]
    rw [if_neg (by simp), hpass, hpass, walk_nil]
    simp

/-! ## The MAC chains denote the MAC lists -/

/-- The address is on the list, up to case. -/
def listed (config : Config) (l : MacListName) (mac : Text) : Bool :=
  (config.maclist l).any (sameCase · mac)

/-- A chain of the mangle table sets the mark of a packet exactly when the condition holds,
and changes nothing else. -/
def MarksWhen (ts : Tables) (chain : String) (op : MarkOp) (value : BitVec 32) (p : Packet H)
    (b : Bool) : Prop :=
  (runTable R ts .mangle chain p).packet = markIf b op value p

/-- INTERNAL: with two-digit octets, the firewall compares addresses as the lists do. -/
theorem onList_eq_listed {l : MacListName}
    (htwo : ∀ mac ∈ config.maclist l, isTwoDigitMac mac = true) (h : H) :
    onList R config l h = listed config l (R.srcMac h).val := by
  unfold onList listed
  rw [Bool.eq_iff_iff, List.any_eq_true, List.any_eq_true]
  refine exists_congr fun mac => and_congr_right fun hmac => ?_
  rw [beq_iff_eq]
  exact readMac_eq_iff (htwo mac hmac) (R.srcMac h).property

/-- INTERNAL: the addresses the daemon keeps have two-digit octets when those it is given
have. -/
theorem twoDigit_of_reaches {out : Outside} {requests : List Request} {h h' : Host} {w : World}
    (hreach : Reaches out config requests h w h')
    (hconfig : ∀ l, ∀ mac ∈ config.maclist l, isTwoDigitMac mac = true)
    (hrequests : ∀ request arg, Request.ndsctlMac request arg ∈ requests →
      isTwoDigitMac arg = true) :
    ∀ l, ∀ mac ∈ w.config.maclist l, isTwoDigitMac mac = true := by
  have hsources : Sources (fun _ => True) (fun mac => isTwoDigitMac mac = true)
      (fun _ _ => True) config.macmechanism requests := by
    refine ⟨fun _ => trivial, fun _ _ _ _ _ _ => trivial, ?_, fun _ _ _ _ _ _ => trivial⟩
    intro request arg hmem _ _ _
    have htwo := hrequests request arg hmem
    rw [macCopy_of_isMacAddress (isMacAddress_of_isTwoDigitMac htwo)]
    exact ⟨htwo, fun _ => trivial⟩
  have hinit : Runs (fun _ => True) (fun _ => True) (iptablesFwInit config {}) :=
    Prog.always_mono (Prog.always_trivial _) (fun _ _ _ _ => trivial) fun _ h => h
  have hrun := (runs_daemonRun hsources hinit hconfig rfl).result out h
  rw [hreach.run] at hrun
  exact (hrun w rfl).macs

/-- **The MAC chains denote the MAC lists**: after any requests, `ndsBLK` marks exactly the
packets from blocked addresses, or from addresses that are not allowed, and `ndsTRU`
those from trusted ones.
SOURCE: fw_iptables.c:278-312, 379-406, ndsctl_thread.c:346-458 -/
theorem mac_chains_denote_lists (R : Reading H) (out : Outside) (config : Config)
    (requests : List Request) (h : Host) (w : World) (h' : Host)
    (hreach : Reaches out config requests h w h')
    (hconfig : ∀ l, ∀ mac ∈ config.maclist l, isTwoDigitMac mac = true)
    (hrequests : ∀ request arg, Request.ndsctlMac request arg ∈ requests →
      isTwoDigitMac arg = true) (p : Packet H) :
    let mac := (R.srcMac p.header).val
    (config.macmechanism = .block → MarksWhen R h'.tables CHAIN_BLOCKED w.fw.markop
      w.fw.fwMarkBlocked p (listed w.config .blocked mac)) ∧
    (config.macmechanism = .allow →
      MarksWhen R h'.tables CHAIN_BLOCKED w.fw.markop w.fw.fwMarkBlocked p
        (!listed w.config .allowed mac) ∧
      ∃ rs, (h'.tables .mangle).rules CHAIN_BLOCKED = some (rs ++ [blockAllRule w.fw])) ∧
    MarksWhen R h'.tables CHAIN_TRUSTED w.fw.markop w.fw.fwMarkTrusted p
      (listed w.config .trusted mac) := by
  have hstate := hreach.state
  have htwo := twoDigit_of_reaches hreach hconfig hrequests
  have hmech : w.config.macmechanism = config.macmechanism := by
    rw [hstate.session.config_eq]
  have hblocked : (runTable R h'.tables .mangle CHAIN_BLOCKED p).packet =
      markIf (macBlocked R w.config p.header) w.fw.markop w.fw.fwMarkBlocked p := by
    rcases runTable_blocked R hstate.session.macs p with hrun | hrun <;> rw [hrun] <;> rfl
  refine ⟨fun hblock => ?_, fun hallow => ⟨?_, ?_⟩, ?_⟩
  · unfold MarksWhen
    rw [hblocked, macBlocked, hmech, hblock, onList_eq_listed R (htwo .blocked)]
  · unfold MarksWhen
    rw [hblocked, macBlocked, hmech, hallow, onList_eq_listed R (htwo .allowed)]
  · obtain ⟨rs, hrs, -⟩ := hstate.session.macs .allowed (by
      simp [Config.usesList, MacListName.mechanism, hmech, hallow])
    exact ⟨rs, hrs⟩
  · unfold MarksWhen
    rw [runTable_trusted R hstate.session.macs p, onList_eq_listed R (htwo .trusted)]
    rfl

/-- Two addresses are blocked, and one of them is unblocked under another case. -/
def sampleMacRequests : List Request :=
  [.ndsctlMac .block "00:11:22:33:44:5a".toList, .ndsctlMac .block "66:77:88:99:aa:bb".toList,
    .ndsctlMac .unblock "66:77:88:99:AA:BB".toList]

/-- The packets of the address that is still blocked are marked. -/
theorem mac_chains_denote_lists_sample :
    ∃ w h', Reaches obligingMachine {} sampleMacRequests emptyRouter w h' ∧
      listed w.config .blocked "00:11:22:33:44:5A".toList = true ∧
      MarksWhen macReading h'.tables CHAIN_BLOCKED w.fw.markop w.fw.fwMarkBlocked
        ⟨⟨"00:11:22:33:44:5A".toList, by decide⟩, 0⟩
        (listed w.config .blocked "00:11:22:33:44:5A".toList) := by
  have hcheck : checkRun obligingMachine {} sampleMacRequests emptyRouter (fun w =>
      listed w.config .blocked "00:11:22:33:44:5A".toList) = true := by
    decide +kernel
  obtain ⟨w, h', hreach, hlisted⟩ := reaches_of_checkRun hcheck
  have hrequests : ∀ request arg, Request.ndsctlMac request arg ∈ sampleMacRequests →
      isTwoDigitMac arg = true := by
    intro request arg hmem
    simp only [sampleMacRequests, List.mem_cons, Request.ndsctlMac.injEq, List.not_mem_nil,
      or_false] at hmem
    rcases hmem with ⟨-, rfl⟩ | ⟨-, rfl⟩ | ⟨-, rfl⟩ <;> decide
  exact ⟨w, h', hreach, hlisted, (mac_chains_denote_lists macReading _ _ _ _ _ _ hreach
    (by rintro l mac ⟨⟩) hrequests _).1 rfl⟩

end WifiCat.Analysis
