import WifiCat.Analysis.ClientListInvariant
import WifiCat.Analysis.Startup
import WifiCat.Model.Firewall

/-!
# The rules of the authenticated clients

The chains `ndsOUT` and `ndsINC` hold the rules of traffic control and, in some order,
one group of rules for each listed client in state `FW_MARK_AUTHENTICATED`
(`RulesAgree`).  The rules are removed by their text, so what has to be shown is that a
removal writes the text of the addition again: the rules of a client depend on its IP
address, its MAC address and its slot, which never change while it is listed.
-/

set_option autoImplicit false

namespace WifiCat.Analysis

open CommandProgram Netfilter Scan

variable {out : Outside} {fw : Firewall} {cl : ClientList} {ts us : Tables}

/-! ## The two chains -/

/-- The listed clients whose state is authenticated. -/
def authenticatedClients (fw : Firewall) (cl : ClientList) : List Client :=
  cl.firstclient.filter fun c => c.fwConnectionState = fw.fwMarkAuthenticated

/-- The rule of a client in `ndsOUT`, as `iptables` lists it. -/
def outgoingRule (fw : Firewall) (client : Client) : IptablesRule :=
  readRule (outgoingMarkRule fw client)

/-- The rules of a client in `ndsINC`. -/
def incomingRules (fw : Firewall) (client : Client) : List IptablesRule :=
  [incomingMarkRule fw client, incomingAcceptRule client]

/-- A chain holds rules of traffic control and the given rules, in some order. -/
def Holds (ts : Tables) (chain : String) (rules : List IptablesRule) : Prop :=
  ∃ imq rs, (ts .mangle).rules chain = some rs ∧ (∀ r ∈ imq, IsImq r) ∧ rs.Perm (imq ++ rules)

/-- The firewall lets exactly the authenticated clients through.
SOURCE: fw_iptables.c:746-800 -/
structure RulesAgree (fw : Firewall) (cl : ClientList) (ts : Tables) : Prop where
  outgoing : Holds ts CHAIN_OUTGOING ((authenticatedClients fw cl).map (outgoingRule fw))
  incoming : Holds ts CHAIN_INCOMING ((authenticatedClients fw cl).flatMap (incomingRules fw))

theorem Holds.perm {chain : String} {rules rules' : List IptablesRule} (h : Holds ts chain rules)
    (hperm : rules.Perm rules') : Holds ts chain rules' := by
  obtain ⟨imq, rs, hrs, himq, hp⟩ := h
  exact ⟨imq, rs, hrs, himq, hp.trans (hperm.append_left imq)⟩

theorem Holds.of_rules_eq {chain : String} {rules : List IptablesRule} (h : Holds ts chain rules)
    (heq : (us .mangle).rules chain = (ts .mangle).rules chain) : Holds us chain rules := by
  obtain ⟨imq, rs, hrs, himq, hp⟩ := h
  exact ⟨imq, rs, heq.trans hrs, himq, hp⟩

/-- INTERNAL: the agreement is about two chains only. -/
theorem RulesAgree.of_rules_eq (h : RulesAgree fw cl ts)
    (hout : (us .mangle).rules CHAIN_OUTGOING = (ts .mangle).rules CHAIN_OUTGOING)
    (hin : (us .mangle).rules CHAIN_INCOMING = (ts .mangle).rules CHAIN_INCOMING) :
    RulesAgree fw cl us :=
  ⟨h.outgoing.of_rules_eq hout, h.incoming.of_rules_eq hin⟩

/-- INTERNAL: appended rules are held beside the others. -/
theorem Holds.append {chain : String} {rules new : List IptablesRule} (h : Holds ts chain rules)
    (heq : (us .mangle).rules chain = ((ts .mangle).rules chain).map (· ++ new)) :
    Holds us chain (new ++ rules) := by
  obtain ⟨imq, rs, hrs, himq, hp⟩ := h
  refine ⟨imq, rs ++ new, by simp [heq, hrs], himq, ?_⟩
  have hback : (rs ++ new).Perm (imq ++ (rules ++ new)) := by
    rw [← List.append_assoc]
    exact hp.append_right new
  exact hback.trans (List.perm_append_comm.append_left imq)

/-- INTERNAL: a rule that is removed by its text leaves the others. -/
theorem Holds.erase {chain : String} {r : IptablesRule} {rules : List IptablesRule}
    (h : Holds ts chain (r :: rules))
    (heq : (us .mangle).rules chain = ((ts .mangle).rules chain).map (·.erase r)) :
    Holds us chain rules := by
  obtain ⟨imq, rs, hrs, himq, hp⟩ := h
  refine ⟨imq, rs.erase r, by simp [heq, hrs], himq, ?_⟩
  have hfront : rs.Perm (r :: (imq ++ rules)) := hp.trans List.perm_middle
  simpa using hfront.erase r

/-! ## iptables_fw_access -/

/-- `-A` for an authentication, `-D` for a deauthentication.
SOURCE: fw_iptables.c:774, 786 -/
def accessOp : AuthAction → String → IptablesRule → IptablesOp
  | .makeAuthenticated => .append
  | .makeDeauthenticated => .delete

/-- INTERNAL: a program that runs no `iptables` command leaves the tables alone. -/
theorem tables_of_noIptables {α : Type} {P : α → Prop} {p : Program α}
    (hp : Runs (fun cmd => ∀ c, cmd ≠ .iptables c) P p) (h : Host) :
    (runOn out p h).2.tables = h.tables := by
  obtain ⟨cmds, hcmds, happly⟩ := exists_succeeded out hp h
  cases cmds with
  | nil => exact (Option.some.inj happly).symm
  | cons cmd cmds => exact absurd rfl (hcmds cmd (by simp) cmd)

/-- The chains a change of access names. -/
def accessPlaces : Set Place := {(.mangle, CHAIN_OUTGOING), (.mangle, CHAIN_INCOMING)}

theorem touches_access (config : Config) (fw : Firewall) (action : AuthAction) (client : Client) :
    Touches accessPlaces (iptablesFwAccess config fw action client) := by
  have htc : ∀ cmds, Touches accessPlaces (tcDoCommands cmds) := by
    intro cmds
    refine runs_tcDoCommands ?_
    rintro cmd x ⟨⟩
  have hcmds : ∀ op : String → IptablesRule → IptablesOp, (∀ c r, (op c r).chain = c) →
      Touches accessPlaces (iptablesDoCommands false (accessCommands op
        { fw with fwQuiet := false } client)) := by
    intro op hop
    refine runs_iptablesDoCommands ?_
    intro cmd hcmd x hx
    simp only [accessCommands, List.mem_cons, List.not_mem_nil, or_false] at hcmd
    rcases hcmd with rfl | rfl | rfl <;> cases hx <;> simp [accessPlaces, hop]
  unfold iptablesFwAccess
  cases action with
  | makeAuthenticated =>
    refine (hcmds Op.append fun _ _ => rfl).bind fun _ _ => Runs.bind (P := fun _ => True) ?_
      fun _ _ => trivial
    split
    · exact htc _
    · trivial
  | makeDeauthenticated =>
    refine (hcmds Op.delete fun _ _ => rfl).bind fun _ _ => Runs.bind (P := fun _ => True) ?_
      fun _ _ => trivial
    split
    · exact htc _
    · trivial

/-- INTERNAL: **a change of access** on a machine that logged nothing: the three commands
had their effects, and nothing else happened to the tables.
SOURCE: fw_iptables.c:746-800 -/
theorem access_run {config : Config} {action : AuthAction} {client : Client} {h : Host}
    (hquiet : fw.fwQuiet = false)
    (hclean : (runOn out (iptablesFwAccess config fw action client) h).2.clean) :
    (runOn out (iptablesFwAccess config fw action client) h).1.2 = fw ∧
      Cmd.applyAll ((accessCommands (accessOp action) fw client).map readCommand) h.tables =
        some (runOn out (iptablesFwAccess config fw action client) h).2.tables := by
  have hfw : { fw with fwQuiet := false } = fw := by
    rw [← hquiet]
  have htc : ∀ (cmds : List TcCommand) (h : Host),
      (runOn out (if config.trafficControl then tcDoCommands cmds else pure 0) h).2.tables =
        h.tables := by
    intro cmds h
    split
    · exact tables_of_noIptables (runs_tcDoCommands fun cmd c => by simp) h
    · rfl
  cases action with
  | makeAuthenticated =>
    simp only [runOn, iptablesFwAccess, hfw, tcAttachClient, Prog.run_bind, Prog.pure_eq,
      Prog.run_done] at hclean htc ⊢
    refine ⟨trivial, ?_⟩
    rw [htc]
    exact (applyAll_of_clean (clean_of_run hclean)).1
  | makeDeauthenticated =>
    simp only [runOn, iptablesFwAccess, hfw, tcDetachClient, Prog.run_bind, Prog.pure_eq,
      Prog.run_done] at hclean htc ⊢
    refine ⟨trivial, ?_⟩
    rw [htc]
    exact (applyAll_of_clean (clean_of_run hclean)).1

/-- INTERNAL: the two chains after the access commands. -/
theorem rules_of_access {action : AuthAction} {client : Client}
    (h : Cmd.applyAll ((accessCommands (accessOp action) fw client).map readCommand) ts = some us) :
    (us .mangle).rules CHAIN_OUTGOING =
        (accessOp action CHAIN_OUTGOING (outgoingRule fw client)).effect
          ((ts .mangle).rules CHAIN_OUTGOING) ∧
      (us .mangle).rules CHAIN_INCOMING =
        (accessOp action CHAIN_INCOMING (incomingAcceptRule client)).effect
          ((accessOp action CHAIN_INCOMING (incomingMarkRule fw client)).effect
            ((ts .mangle).rules CHAIN_INCOMING)) := by
  rw [Cmd.rules_of_applyAll h, Cmd.rules_of_applyAll h]
  simp only [accessCommands, List.map_cons, List.map_nil, replay_readCommand, Cmd.replay_nil]
  cases action <;>
    simp [accessOp, Op.chain, Op.mapRule, CHAIN_OUTGOING, CHAIN_INCOMING, outgoingRule,
      incomingMarkRule, incomingAcceptRule, readRule, Match.read]

/-! ## Changes of the list -/

section Counters

variable {I : ClientList → Prop}
  (hI : ∀ cl a (counters : Client → Counters),
    (∀ c, (counters c).incomingHistory = c.counters.incomingHistory ∧
      (counters c).outgoingHistory = c.counters.outgoingHistory) → I cl →
    I (cl.modify a fun c => { c with counters := counters c }))

include hI

/-- INTERNAL: what changes of counters keep, a line of the outgoing chain keeps.
SOURCE: fw_iptables.c:909-926 -/
theorem updateOutgoing_keeps (now : ℤ) (line : CounterLine) {cl : ClientList} (hcl : I cl) :
    I (updateOutgoing now line cl) := by
  unfold updateOutgoing
  split
  · split
    · exact hcl
    · split
      · exact hI _ _ _ (fun c => ⟨rfl, rfl⟩) hcl
      · exact hcl
  · exact hcl

/-- INTERNAL: so does a line of the incoming chain.
SOURCE: fw_iptables.c:948-964 -/
theorem updateIncoming_keeps (line : CounterLine) {cl : ClientList} (hcl : I cl) :
    I (updateIncoming line cl) := by
  unfold updateIncoming
  split
  · split
    · exact hcl
    · split
      · exact hI _ _ _ (fun c => ⟨rfl, rfl⟩) hcl
      · exact hcl
  · exact hcl

/-- INTERNAL: so does reading the counters.
SOURCE: fw_iptables.c:880-970 -/
theorem countersUpdate_keeps (input : RefreshInput) {cl : ClientList} (hcl : I cl) :
    I (iptablesFwCountersUpdate input cl).2 := by
  unfold iptablesFwCountersUpdate
  cases input.outgoing with
  | none => exact hcl
  | some lines =>
    have hread : I (lines.zipIdx.foldl
        (fun cl l => updateOutgoing (input.readAt l.2) l.1 cl) cl) :=
      Run.invariant_foldl (fun _ _ hcl => updateOutgoing_keeps hI _ _ hcl) lines.zipIdx hcl
    cases input.incoming with
    | none => exact hread
    | some lines' =>
      exact Run.invariant_foldl (fun _ _ hcl => updateIncoming_keeps hI _ hcl) lines' hread

end Counters

/-! ## The authenticated clients -/

/-- INTERNAL: clients change otherwise than in their state. -/
theorem authenticatedClients_map {g : Client → Client}
    (hg : ∀ c, (g c).fwConnectionState = c.fwConnectionState) :
    authenticatedClients fw { cl with firstclient := cl.firstclient.map g } =
      (authenticatedClients fw cl).map g := by
  unfold authenticatedClients
  rw [List.filter_map]
  congr 2
  funext c
  simp [hg c]

/-- INTERNAL: a listed client becomes authenticated.
SOURCE: auth.c:110-112 -/
theorem authenticatedClients_modify {client : Client} {f : Client → Client}
    (hmem : client ∈ cl.firstclient) (haddr : (cl.firstclient.map Client.addr).Nodup)
    (hstate : client.fwConnectionState ≠ fw.fwMarkAuthenticated)
    (hf : (f client).fwConnectionState = fw.fwMarkAuthenticated) :
    (authenticatedClients fw (cl.modify client.addr f)).Perm
      (f client :: authenticatedClients fw cl) := by
  obtain ⟨l₁, l₂, hl⟩ := List.append_of_mem hmem
  have hrest : ∀ l : List Client, (∀ c ∈ l, c.addr ≠ client.addr) →
      l.map (fun c => if c.addr = client.addr then f c else c) = l := by
    intro l hne
    calc l.map (fun c => if c.addr = client.addr then f c else c)
        = l.map id := List.map_congr_left fun c hc => if_neg (hne c hc)
      _ = l := List.map_id l
  rw [hl, List.map_append, List.map_cons, List.nodup_middle, List.nodup_cons] at haddr
  simp only [List.mem_append, List.mem_map, not_or, not_exists, not_and] at haddr
  unfold authenticatedClients ClientList.modify
  rw [hl]
  simp only [List.map_append, List.map_cons, if_true]
  rw [hrest l₁ haddr.1.1, hrest l₂ haddr.1.2]
  simp only [List.filter_append, List.filter_cons, hf, hstate, decide_true, decide_false,
    if_true, Bool.false_eq_true, if_false]
  exact List.perm_middle

/-- INTERNAL: a client that is not authenticated leaves. -/
theorem authenticatedClients_remove {cl' : ClientList} {client : Client} {l₁ l₂ : List Client}
    (hl : cl.firstclient = l₁ ++ client :: l₂) (hl' : cl'.firstclient = l₁ ++ l₂)
    (hstate : client.fwConnectionState ≠ fw.fwMarkAuthenticated) :
    authenticatedClients fw cl' = authenticatedClients fw cl := by
  unfold authenticatedClients
  rw [hl, hl']
  simp [hstate]

/-- INTERNAL: a new client is not authenticated.
SOURCE: client_list.c:135 -/
theorem authenticatedClients_add (hmarks : fwMarkPreauthenticated ≠ fw.fwMarkAuthenticated)
    (maxclients : ℤ) (env : Arrival) (ip : Text) (cl : ClientList) :
    authenticatedClients fw (clientListAddClient maxclients env ip cl).2 =
      authenticatedClients fw cl := by
  rcases clientListAddClient_cases maxclients env ip cl with
    ⟨hno, -⟩ | ⟨mac, c, -, -, -, hlisted⟩ | ⟨mac, token, -, -, -, happend⟩
  · rw [hno]
  · rw [hlisted]
  · rw [happend]
    rcases clientListAppend_cases maxclients env ip mac token cl with
      ⟨-, hfull⟩ | ⟨-, c, -, -, hstate, -, -, hnew⟩
    · rw [hfull]
    · rw [hnew]
      simp [authenticatedClients, hstate, hmarks]

/-! ## Their rules -/

/-- INTERNAL: clients of whom nothing the firewall sees has changed. -/
theorem RulesAgree.map {g : Client → Client} (hagree : RulesAgree fw cl ts)
    (hg : ∀ c, (g c).fwConnectionState = c.fwConnectionState ∧
      outgoingRule fw (g c) = outgoingRule fw c ∧ incomingRules fw (g c) = incomingRules fw c) :
    RulesAgree fw { cl with firstclient := cl.firstclient.map g } ts := by
  have hclients := @authenticatedClients_map fw cl g fun c => (hg c).1
  refine ⟨?_, ?_⟩
  · have hrules : outgoingRule fw ∘ g = outgoingRule fw := funext fun c => (hg c).2.1
    rw [hclients, List.map_map, hrules]
    exact hagree.outgoing
  · have hrules : ∀ l : List Client, (l.map g).flatMap (incomingRules fw) =
        l.flatMap (incomingRules fw) := by
      intro l
      rw [List.flatMap_map]
      exact congrArg (fun f => l.flatMap f) (funext fun c => (hg c).2.2)
    rw [hclients, hrules]
    exact hagree.incoming

/-- INTERNAL: an authentication adds the client's rules.
SOURCE: auth.c:105-119 -/
theorem RulesAgree.authenticate {client : Client} {f : Client → Client}
    (hagree : RulesAgree fw cl ts) (hmem : client ∈ cl.firstclient)
    (haddr : (cl.firstclient.map Client.addr).Nodup)
    (hstate : client.fwConnectionState ≠ fw.fwMarkAuthenticated)
    (hf : (f client).fwConnectionState = fw.fwMarkAuthenticated)
    (hus : Cmd.applyAll ((accessCommands (accessOp .makeAuthenticated) fw (f client)).map
      readCommand) ts = some us) :
    RulesAgree fw (cl.modify client.addr f) us := by
  obtain ⟨hout, hin⟩ := rules_of_access hus
  have hclients := authenticatedClients_modify hmem haddr hstate hf
  refine ⟨?_, ?_⟩
  · have happend : (us .mangle).rules CHAIN_OUTGOING =
        ((ts .mangle).rules CHAIN_OUTGOING).map (· ++ [outgoingRule fw (f client)]) := hout
    exact (hagree.outgoing.append happend).perm (hclients.map (outgoingRule fw)).symm
  · have happend : (us .mangle).rules CHAIN_INCOMING =
        ((ts .mangle).rules CHAIN_INCOMING).map (· ++ incomingRules fw (f client)) := by
      rw [hin]
      cases (ts .mangle).rules CHAIN_INCOMING <;> simp [accessOp, Op.effect, incomingRules]
    exact (hagree.incoming.append happend).perm (hclients.flatMap_right (incomingRules fw)).symm

/-- INTERNAL: a removal of an authenticated client takes its rules away.
SOURCE: auth.c:121-126, firewall.c:174-187 -/
theorem RulesAgree.deauthenticate {cl' : ClientList} {client : Client} {l₁ l₂ : List Client}
    (hagree : RulesAgree fw cl ts) (hl : cl.firstclient = l₁ ++ client :: l₂)
    (hl' : cl'.firstclient = l₁ ++ l₂)
    (hstate : client.fwConnectionState = fw.fwMarkAuthenticated)
    (hus : Cmd.applyAll ((accessCommands (accessOp .makeDeauthenticated) fw client).map
      readCommand) ts = some us) :
    RulesAgree fw cl' us := by
  obtain ⟨hout, hin⟩ := rules_of_access hus
  have hclients : (authenticatedClients fw cl).Perm (client :: authenticatedClients fw cl') := by
    unfold authenticatedClients
    rw [hl, hl']
    simp only [List.filter_append, List.filter_cons, hstate, decide_true, if_true]
    exact List.perm_middle
  refine ⟨?_, ?_⟩
  · exact (hagree.outgoing.perm (hclients.map (outgoingRule fw))).erase hout
  · have hrules := hagree.incoming.perm (hclients.flatMap_right (incomingRules fw))
    obtain ⟨imq, rs, hrs, himq, hp⟩ := hrules
    -- the two rules of the client leave one after the other
    have hmark : rs.Perm (incomingMarkRule fw client :: (imq ++ incomingAcceptRule client ::
        (authenticatedClients fw cl').flatMap (incomingRules fw))) := hp.trans List.perm_middle
    have haccept : (rs.erase (incomingMarkRule fw client)).Perm (incomingAcceptRule client ::
        (imq ++ (authenticatedClients fw cl').flatMap (incomingRules fw))) := by
      refine List.Perm.trans ?_ List.perm_middle
      simpa using hmark.erase (incomingMarkRule fw client)
    refine ⟨imq, (rs.erase (incomingMarkRule fw client)).erase (incomingAcceptRule client), ?_,
      himq, ?_⟩
    · rw [hin, hrs]
      rfl
    · simpa using haccept.erase (incomingAcceptRule client)

/-- INTERNAL: a client that is not authenticated has no rules to take away. -/
theorem RulesAgree.remove {cl' : ClientList} {client : Client} {l₁ l₂ : List Client}
    (hagree : RulesAgree fw cl ts) (hl : cl.firstclient = l₁ ++ client :: l₂)
    (hl' : cl'.firstclient = l₁ ++ l₂)
    (hstate : client.fwConnectionState ≠ fw.fwMarkAuthenticated) : RulesAgree fw cl' ts := by
  have hclients := authenticatedClients_remove hl hl' hstate
  exact ⟨hclients ▸ hagree.outgoing, hclients ▸ hagree.incoming⟩

end WifiCat.Analysis
