import WifiCat.Analysis.AccessRules
import WifiCat.Model.Daemon

/-!
# The record of a client and the outcome of its firewall commands

`auth_client_action` and `fw_refresh_client_list` record what they asked of the firewall
without looking at the exit statuses.  The record follows the firewall exactly when the
commands had their effects: every `-A` exits 0, and every `-D` exits 0 or finds no rule.
-/

set_option autoImplicit false

namespace WifiCat.Analysis

open CommandProgram Netfilter Scan

variable {out : Outside} {fw : Firewall} {client : Client}

/-! ## The events -/

/-- What changes a client's access. -/
inductive AccessEvent
  | authenticate (ip mac : Text)
  | deauthenticate (ip mac : Text)
  | timeout (now : ℤ) (node : Client)

/-- The client an event is about. -/
def AccessEvent.find (w : World) : AccessEvent → Option Client
  | .authenticate ip mac => clientListFind ip mac w.clients
  | .deauthenticate ip mac => clientListFind ip mac w.clients
  | .timeout _ node => clientListFind node.ip node.mac w.clients

/-- What the source runs: `auth_client_action`, and a round of the loop of
`fw_refresh_client_list`.
SOURCE: auth.c:91-134, firewall.c:161-193 -/
def AccessEvent.serve (w : World) : AccessEvent → Program World
  | .authenticate ip mac => authClientAction ip mac .makeAuthenticated w
  | .deauthenticate ip mac => authClientAction ip mac .makeDeauthenticated w
  | .timeout now node => refreshClient now node w

/-- The client was idle or connected for too long.
SOURCE: firewall.c:168, 178 -/
def timedOut (now : ℤ) (w : World) (client : Client) : Prop :=
  client.counters.lastUpdated + int32 (w.config.checkinterval * w.config.clienttimeout) ≤ now ∨
    client.addedTime + int32 (w.config.checkinterval * w.config.clientforceout) ≤ now

/-! ## What is claimed of a step -/

/-- Both chains have the client's rules on top of what they had. -/
structure RulesAdded (fw : Firewall) (client : Client) (ts us : Tables) : Prop where
  outgoing : ∃ rs, (ts .mangle).rules CHAIN_OUTGOING = some rs ∧
    (us .mangle).rules CHAIN_OUTGOING = some (rs ++ [outgoingRule fw client])
  incoming : ∃ rs, (ts .mangle).rules CHAIN_INCOMING = some rs ∧
    (us .mangle).rules CHAIN_INCOMING = some (rs ++ incomingRules fw client)

/-- Neither chain holds the client's copy of one of its rules any more. -/
structure RulesRemoved (fw : Firewall) (client : Client) (ts us : Tables) : Prop where
  outgoing : (us .mangle).rules CHAIN_OUTGOING =
    ((ts .mangle).rules CHAIN_OUTGOING).map fun rs => rs.erase (outgoingRule fw client)
  incoming : (us .mangle).rules CHAIN_INCOMING =
    ((ts .mangle).rules CHAIN_INCOMING).map fun rs => rs.diff (incomingRules fw client)

/-- The record follows the firewall in one step: an authentication is recorded only if all
of the client's rules were added, and otherwise leaves list, counter and tables alone; a
client leaves the list only if its rules were removed. -/
def RecordFollows (out : Outside) (w : World) (h : Host) (e : AccessEvent) : Prop :=
  ∀ client, e.find w = some client →
    let after := runOn out (e.serve w) h
    match e with
    | .authenticate _ _ =>
      RulesAdded w.fw client h.tables after.2.tables ∨
        (after.1.clients = w.clients ∧
          after.1.authenticatedSinceStart = w.authenticatedSinceStart ∧
          after.2.tables = h.tables)
    | _ => after.1.clients = w.clients ∨ RulesRemoved w.fw client h.tables after.2.tables

/-! ## When it holds -/

/-- The exit statuses of commands that are run one after the other. -/
def exits (out : Outside) : List IptablesCommand → Host → List (BitVec 32)
  | [], _ => []
  | cmd :: cmds, h =>
    (runOn out (iptablesDoCommand false cmd) h).1 ::
      exits out cmds (runOn out (iptablesDoCommand false cmd) h).2

/-- The rule a command names is not in its chain. -/
def Absent (ts : Tables) (cmd : IptablesCommand) : Prop :=
  ∀ rs r, (ts cmd.table).rules cmd.op.chain = some rs → cmd.op.rule = some r → readRule r ∉ rs

/-- Removing the client removes its rules: of a client recorded as authenticated every `-D`
exits 0 or finds no rule, any other client has no rules. -/
def RemovalWorks (out : Outside) (w : World) (h : Host) (client : Client) : Prop :=
  if client.fwConnectionState = w.fw.fwMarkAuthenticated then
    ∀ p ∈ (accessCommands .delete w.fw client).zip (exits out (accessCommands .delete w.fw client) h),
      p.2 = 0 ∨ Absent h.tables p.1
  else ∀ cmd ∈ accessCommands .delete w.fw client, Absent h.tables cmd

/-- The firewall commands of a step have their effects. -/
def CommandsWork (out : Outside) (w : World) (h : Host) (e : AccessEvent) : Prop :=
  ∀ client, e.find w = some client →
    match e with
    | .authenticate _ _ => client.fwConnectionState ≠ w.fw.fwMarkAuthenticated →
        ∀ rc ∈ exits out (accessCommands .append w.fw client) h, rc = 0
    | .deauthenticate _ _ => RemovalWorks out w h client
    | .timeout now _ => timedOut now w client → RemovalWorks out w h client

/-! ## The commands -/

/-- INTERNAL: a command that exits 0 has its effect on the chain it names, another one none.
SOURCE: fw_iptables.c:154-188 -/
theorem rules_of_command (out : Outside) (cmd : IptablesCommand) (h : Host) (k : TableName)
    (c : String) :
    ((runOn out (iptablesDoCommand false cmd) h).2.tables k).rules c =
      if (runOn out (iptablesDoCommand false cmd) h).1 = 0 ∧ cmd.table = k ∧ cmd.op.chain = c then
        (cmd.op.mapRule readRule).effect ((h.tables k).rules c)
      else (h.tables k).rules c := by
  rcases iptablesDoCommand_cases out false cmd h with ⟨hzero, hts, -⟩ | ⟨hne, hsame, -⟩
  · rw [rules_of_iptables hts]
    by_cases hplace : cmd.table = k ∧ cmd.op.chain = c
    · rw [if_pos hplace, if_pos ⟨hzero, hplace⟩]
    · rw [if_neg hplace, if_neg fun hall => hplace hall.2]
  · rw [if_neg fun hall => hne hall.1, hsame]

/-- INTERNAL: the chain of a rule that was added or deleted exists. -/
theorem isSome_of_command {cmd : IptablesCommand} {h : Host} (hrule : cmd.op.rule.isSome)
    (hzero : (runOn out (iptablesDoCommand false cmd) h).1 = 0) :
    ((h.tables cmd.table).rules cmd.op.chain).isSome = true := by
  rcases iptablesDoCommand_cases out false cmd h with ⟨-, hts, -⟩ | ⟨hne, -⟩
  · obtain ⟨t, ht, -⟩ := Option.map_eq_some_iff.mp (iptables_eq_some hts).2
    have hrule' : (cmd.mapRule readRule).op.rule.isSome = true := by
      cases hop : cmd.op <;> simp [Cmd.mapRule, hop, Op.mapRule, Op.rule] at hrule ⊢
    have hsome := Op.isSome_of_apply ht hrule'
    simpa [Cmd.mapRule] using hsome
  · exact absurd hzero hne

/-- The two chains of the clients' rules. -/
abbrev outgoingOf (ts : Tables) : Option (List IptablesRule) := (ts .mangle).rules CHAIN_OUTGOING
abbrev incomingOf (ts : Tables) : Option (List IptablesRule) := (ts .mangle).rules CHAIN_INCOMING

/-- INTERNAL: the two chains after the three access commands, by their exit statuses.
SOURCE: fw_iptables.c:772-778, 785-789 -/
theorem rules_of_accessCommands {action : AuthAction} (h : Host) :
    let op := accessOp action
    let after := (runOn out (iptablesDoCommands false (accessCommands op fw client)) h).2
    ∃ e₁ e₂ e₃ mid, exits out (accessCommands op fw client) h = [e₁, e₂, e₃] ∧
      (e₁ = 0 → (outgoingOf h.tables).isSome = true) ∧
      (e₂ = 0 → (incomingOf h.tables).isSome = true) ∧
      outgoingOf after.tables =
        (if e₁ = 0 then (op CHAIN_OUTGOING (outgoingRule fw client)).effect (outgoingOf h.tables)
          else outgoingOf h.tables) ∧
      mid = (if e₂ = 0 then
          (op CHAIN_INCOMING (incomingMarkRule fw client)).effect (incomingOf h.tables)
          else incomingOf h.tables) ∧
      incomingOf after.tables =
        (if e₃ = 0 then (op CHAIN_INCOMING (incomingAcceptRule client)).effect mid else mid) := by
  intro op after
  have hchain : ∀ c r, (op c r).chain = c := by
    intro c r
    cases action <;> rfl
  have hrule : ∀ c r, (op c r).rule.isSome = true := by
    intro c r
    cases action <;> rfl
  have hread : ∀ c r, (op c r).mapRule readRule = op c (readRule r) := by
    intro c r
    cases action <;> rfl
  have hmark : readRule (incomingMarkRule fw client) = incomingMarkRule fw client := rfl
  have haccept : readRule (incomingAcceptRule client) = incomingAcceptRule client := rfl
  have hne : CHAIN_OUTGOING ≠ CHAIN_INCOMING := by decide
  -- the hosts between the commands
  generalize hh₁ : (runOn out (iptablesDoCommand false
    ⟨.mangle, op CHAIN_OUTGOING (outgoingMarkRule fw client)⟩) h).2 = h₁
  generalize hh₂ : (runOn out (iptablesDoCommand false
    ⟨.mangle, op CHAIN_INCOMING (incomingMarkRule fw client)⟩) h₁).2 = h₂
  have hafter : after = (runOn out (iptablesDoCommand false
      ⟨.mangle, op CHAIN_INCOMING (incomingAcceptRule client)⟩) h₂).2 := by
    rw [← hh₂, ← hh₁]
    simp only [after, accessCommands, runOn, iptablesDoCommands, List.foldlM_cons,
      List.foldlM_nil, Prog.run_bind, Prog.pure_eq, Prog.run_done]
  have hsame : incomingOf h₁.tables = incomingOf h.tables := by
    rw [← hh₁, incomingOf, rules_of_command, if_neg]
    rintro ⟨-, -, hc⟩
    exact hne ((hchain _ _).symm.trans hc)
  refine ⟨(runOn out (iptablesDoCommand false
      ⟨.mangle, op CHAIN_OUTGOING (outgoingMarkRule fw client)⟩) h).1,
    (runOn out (iptablesDoCommand false
      ⟨.mangle, op CHAIN_INCOMING (incomingMarkRule fw client)⟩) h₁).1,
    (runOn out (iptablesDoCommand false
      ⟨.mangle, op CHAIN_INCOMING (incomingAcceptRule client)⟩) h₂).1, incomingOf h₂.tables,
    ?_, ?_, ?_, ?_, ?_, ?_⟩
  · rw [← hh₂, ← hh₁]
    rfl
  · intro hzero
    have hsome := isSome_of_command (hrule _ _) hzero
    rwa [hchain] at hsome
  · intro hzero
    have hsome := isSome_of_command (hrule _ _) hzero
    rw [← hsame]
    rwa [hchain] at hsome
  · have hlast : ∀ c r h, c ≠ CHAIN_OUTGOING →
        outgoingOf (runOn out (iptablesDoCommand false ⟨.mangle, op c r⟩) h).2.tables =
          outgoingOf h.tables := by
      intro c r h hc
      rw [outgoingOf, rules_of_command, if_neg]
      rintro ⟨-, -, hc'⟩
      exact hc ((hchain _ _).symm.trans hc')
    rw [hafter, hlast _ _ _ hne.symm, ← hh₂, hlast _ _ _ hne.symm, ← hh₁, outgoingOf,
      rules_of_command]
    simp only [hchain, hread, and_true]
    rfl
  · rw [← hsame, ← hh₂, incomingOf, rules_of_command]
    simp only [hchain, hread, hmark, and_true]
  · rw [hafter, incomingOf, rules_of_command]
    simp only [hchain, hread, haccept, and_true]

/-! ## The two directions -/

/-- INTERNAL: the rules are added exactly when the three commands exit 0.
SOURCE: fw_iptables.c:772-778 -/
theorem rulesAdded_iff (h : Host) :
    RulesAdded fw client h.tables
        (runOn out (iptablesDoCommands false (accessCommands .append fw client)) h).2.tables ↔
      ∀ rc ∈ exits out (accessCommands .append fw client) h, rc = 0 := by
  obtain ⟨e₁, e₂, e₃, mid, hexits, hsome₁, hsome₂, hout, hmid, hin⟩ :=
    @rules_of_accessCommands out fw client .makeAuthenticated h
  simp only [accessOp, Op.effect] at hexits hout hmid hin
  rw [hexits]
  simp only [List.forall_mem_cons, List.not_mem_nil, false_implies, implies_true, and_true]
  constructor
  · rintro ⟨⟨outs, houts, houts'⟩, ins, hins, hins'⟩
    rw [outgoingOf, outgoingOf, houts, houts'] at hout
    rw [incomingOf, hins] at hmid
    rw [incomingOf, hins'] at hin
    refine ⟨?_, ?_⟩
    · by_contra hne
      rw [if_neg hne, Option.some.injEq] at hout
      simp at hout
    · -- each of the two commands adds at most one rule
      subst hmid
      have hlength := congrArg (Option.map List.length) hin
      by_cases h₂ : e₂ = 0
      · by_cases h₃ : e₃ = 0
        · exact ⟨h₂, h₃⟩
        · rw [if_neg h₃, if_pos h₂] at hlength
          simp [incomingRules] at hlength
      · rw [if_neg h₂] at hlength
        split at hlength <;> simp [incomingRules] at hlength
  · rintro ⟨rfl, rfl, rfl⟩
    obtain ⟨outs, houts⟩ := Option.isSome_iff_exists.mp (hsome₁ rfl)
    obtain ⟨ins, hins⟩ := Option.isSome_iff_exists.mp (hsome₂ rfl)
    refine ⟨⟨outs, houts, ?_⟩, ins, hins, ?_⟩
    · rw [if_pos rfl, houts] at hout
      exact hout
    · rw [if_pos rfl, hins] at hmid
      rw [if_pos rfl, hmid] at hin
      rw [incomingOf] at hin
      rw [hin]
      simp [incomingRules]

/-- INTERNAL: two different members are gone exactly when each was erased or never there. -/
theorem erase_iff {a b : IptablesRule} (hne : a ≠ b) (e f : Prop) [Decidable e] [Decidable f]
    (l : List IptablesRule) :
    (if f then (if e then l.erase a else l).erase b else if e then l.erase a else l) =
        (l.erase a).erase b ↔ (e ∨ a ∉ l) ∧ (f ∨ b ∉ l) := by
  by_cases he : e
  · by_cases hf : f
    · simp [he, hf]
    · simp only [he, hf, if_true, if_false, true_or, false_or, true_and]
      rw [eq_comm, List.erase_eq_self_iff, List.mem_erase_of_ne hne.symm]
  · by_cases hf : f
    · simp only [he, hf, if_true, if_false, true_or, false_or, and_true]
      rw [List.erase_comm, eq_comm, List.erase_eq_self_iff, List.mem_erase_of_ne hne]
    · simp only [he, hf, if_false, false_or]
      constructor
      · intro h
        have ha := congrArg (List.count a) h
        have hb := congrArg (List.count b) h
        rw [List.count_erase_of_ne hne, List.count_erase_self] at ha
        rw [List.count_erase_self, List.count_erase_of_ne hne.symm] at hb
        exact ⟨List.count_eq_zero.mp (by omega), List.count_eq_zero.mp (by omega)⟩
      · rintro ⟨ha, hb⟩
        rw [List.erase_of_not_mem ha, List.erase_of_not_mem hb]

theorem absent_delete {ts : Tables} {c : String} {r : IptablesRule} :
    Absent ts ⟨.mangle, .delete c r⟩ ↔
      ∀ rs, (ts .mangle).rules c = some rs → readRule r ∉ rs := by
  constructor
  · intro h rs hrs
    exact h rs r hrs rfl
  · rintro h rs r' hrs hr'
    cases hr'
    exact h rs hrs

/-- INTERNAL: the two chains lose a client's rules exactly when each rule is erased or not
there; `e₁`, `e₂` and `e₃` tell which are erased. -/
theorem rulesRemoved_iff_of_erased {ts us : Tables} {e₁ e₂ e₃ : Prop} [Decidable e₁] [Decidable e₂]
    [Decidable e₃] {mid : Option (List IptablesRule)}
    (hout : outgoingOf us =
      if e₁ then (outgoingOf ts).map (·.erase (outgoingRule fw client)) else outgoingOf ts)
    (hmid : mid =
      if e₂ then (incomingOf ts).map (·.erase (incomingMarkRule fw client)) else incomingOf ts)
    (hin : incomingOf us = if e₃ then mid.map (·.erase (incomingAcceptRule client)) else mid) :
    RulesRemoved fw client ts us ↔
      (e₁ ∨ Absent ts ⟨.mangle, .delete CHAIN_OUTGOING (outgoingMarkRule fw client)⟩) ∧
      (e₂ ∨ Absent ts ⟨.mangle, .delete CHAIN_INCOMING (incomingMarkRule fw client)⟩) ∧
      (e₃ ∨ Absent ts ⟨.mangle, .delete CHAIN_INCOMING (incomingAcceptRule client)⟩) := by
  simp only [absent_delete]
  have houtgoing : outgoingOf us = (outgoingOf ts).map (·.erase (outgoingRule fw client)) ↔
      (e₁ ∨ ∀ rs, outgoingOf ts = some rs → outgoingRule fw client ∉ rs) := by
    rw [hout]
    cases outgoingOf ts with
    | none => simp
    | some rs =>
      by_cases he : e₁
      · simp [he]
      · simp only [if_neg he, Option.map_some, Option.some.injEq, forall_eq']
        rw [eq_comm, List.erase_eq_self_iff, or_iff_right he]
  have hincoming : incomingOf us = (incomingOf ts).map (·.diff (incomingRules fw client)) ↔
      (e₂ ∨ ∀ rs, incomingOf ts = some rs → incomingMarkRule fw client ∉ rs) ∧
        (e₃ ∨ ∀ rs, incomingOf ts = some rs → incomingAcceptRule client ∉ rs) := by
    have hne : incomingMarkRule fw client ≠ incomingAcceptRule client := by
      simp [incomingMarkRule, incomingAcceptRule]
    rw [hin, hmid]
    cases incomingOf ts with
    | none => simp
    | some rs =>
      have herase := erase_iff hne e₂ e₃ rs
      simp only [Option.some.injEq, forall_eq']
      rw [← herase, ← Option.some.injEq]
      split <;> split <;> simp [incomingRules]
  constructor
  · rintro ⟨hremoved, hremoved'⟩
    exact ⟨houtgoing.mp hremoved, hincoming.mp hremoved'⟩
  · rintro ⟨h₁, h₂₃⟩
    exact ⟨houtgoing.mpr h₁, hincoming.mpr h₂₃⟩

/-- INTERNAL: the rules are removed exactly when each of the three commands exits 0 or finds
no rule.
SOURCE: fw_iptables.c:785-789 -/
theorem rulesRemoved_iff (h : Host) :
    RulesRemoved fw client h.tables
        (runOn out (iptablesDoCommands false (accessCommands .delete fw client)) h).2.tables ↔
      ∀ p ∈ (accessCommands .delete fw client).zip
          (exits out (accessCommands .delete fw client) h), p.2 = 0 ∨ Absent h.tables p.1 := by
  obtain ⟨e₁, e₂, e₃, mid, hexits, -, -, hout, hmid, hin⟩ :=
    @rules_of_accessCommands out fw client .makeDeauthenticated h
  simp only [accessOp, Op.effect] at hexits hout hmid hin
  rw [hexits, rulesRemoved_iff_of_erased hout hmid hin]
  simp [accessCommands]

/-- INTERNAL: tables that stay as they are have lost a client's rules exactly when they had
none. -/
theorem rulesRemoved_self_iff {ts : Tables} :
    RulesRemoved fw client ts ts ↔ ∀ cmd ∈ accessCommands .delete fw client, Absent ts cmd := by
  rw [@rulesRemoved_iff_of_erased fw client ts ts False False False _ _ _ _
    (if_neg not_false).symm rfl (if_neg not_false).symm]
  simp [accessCommands]

/-! ## The two events -/

/-- INTERNAL: `tc` runs after the rules and leaves them alone.
SOURCE: fw_iptables.c:779-781, 790-792 -/
theorem tables_of_access (config : Config) (action : AuthAction) (h : Host) :
    (runOn out (iptablesFwAccess config fw action client) h).2.tables =
      (runOn out (iptablesDoCommands false (accessCommands (accessOp action) fw client)) h).2.tables := by
  have htc : ∀ (cmds : List TcCommand) (h : Host),
      (runOn out (if config.trafficControl then tcDoCommands cmds else pure 0) h).2.tables =
        h.tables := by
    intro cmds h
    split
    · exact tables_of_noIptables (runs_tcDoCommands fun cmd c => by simp) h
    · rfl
  cases action with
  | makeAuthenticated =>
    simp only [runOn, iptablesFwAccess, tcAttachClient, Prog.run_bind, Prog.pure_eq,
      Prog.run_done] at htc ⊢
    rw [htc]
    rfl
  | makeDeauthenticated =>
    simp only [runOn, iptablesFwAccess, tcDetachClient, Prog.run_bind, Prog.pure_eq,
      Prog.run_done] at htc ⊢
    rw [htc]
    rfl

/-- INTERNAL: the address of a listed client is found. -/
theorem unlinkNode_of_listed {l : List Client} (hmem : client ∈ l) :
    ∃ found, unlinkNode client.addr l = some found := by
  induction l with
  | nil => cases hmem
  | cons d l ih =>
    by_cases hd : d.addr = client.addr
    · exact ⟨(d, l), by simp [unlinkNode, hd]⟩
    · have hl : client ∈ l := by
        rcases List.mem_cons.mp hmem with rfl | hl
        · exact absurd rfl hd
        · exact hl
      obtain ⟨found, hfound⟩ := ih hl
      exact ⟨(found.1, d :: found.2), by simp [unlinkNode, hd, hfound]⟩

/-- INTERNAL: the deletion of a listed client is counted. -/
theorem clientListDelete_ne {cl : ClientList} {client : Client} (hmem : client ∈ cl.firstclient) :
    clientListDelete (some client.addr) cl ≠ cl := by
  intro hsame
  have hcount := congrArg ClientList.clientCount hsame
  obtain ⟨found, hfound⟩ := unlinkNode_of_listed hmem
  have hfree : ∀ cl : ClientList, (clientListFreeNode found.1 cl).clientCount = cl.clientCount := by
    intro cl
    unfold clientListFreeNode
    split <;> rfl
  simp only [clientListDelete, Option.bind_some, hfound, hfree] at hcount
  omega

/-- INTERNAL: a removal takes the client off the list, so it is right exactly when it took
its rules away.
SOURCE: auth.c:121-126, firewall.c:174-177, 184-187 -/
theorem removeClient_follows_iff {w : World} (hmem : client ∈ w.clients.firstclient) (h : Host) :
    ((runOn out (removeClient client w) h).1.clients = w.clients ∨
        RulesRemoved w.fw client h.tables (runOn out (removeClient client w) h).2.tables) ↔
      RemovalWorks out w h client := by
  have hclients : (runOn out (removeClient client w) h).1.clients ≠ w.clients := by
    simp only [runOn, removeClient, Prog.run_bind, Prog.pure_eq, Prog.run_done]
    exact clientListDelete_ne hmem
  rw [or_iff_right hclients, RemovalWorks]
  by_cases hauth : client.fwConnectionState = w.fw.fwMarkAuthenticated
  · have htables : (runOn out (removeClient client w) h).2.tables =
        (runOn out (iptablesDoCommands false (accessCommands .delete w.fw client)) h).2.tables := by
      simp only [runOn, removeClient, if_pos hauth, Prog.run_bind, Prog.run_map, Prog.pure_eq,
        Prog.run_done]
      exact tables_of_access w.config .makeDeauthenticated h
    rw [if_pos hauth, htables, rulesRemoved_iff]
  · have htables : (runOn out (removeClient client w) h).2.tables = h.tables := by
      simp only [runOn, removeClient, if_neg hauth, Prog.run_bind, Prog.pure_eq, Prog.run_done]
    rw [if_neg hauth, htables, rulesRemoved_self_iff]

/-- **The record follows the firewall** in a step exactly when the commands of the step had
their effects: each `-A` exited 0, each `-D` exited 0 or had nothing to delete.
SOURCE: auth.c:91-134, firewall.c:161-193 -/
theorem record_follows_iff (out : Outside) (w : World) (h : Host) (e : AccessEvent) :
    RecordFollows out w h e ↔ CommandsWork out w h e := by
  refine forall_congr' fun client => imp_congr_right fun hfind => ?_
  have hmem : client ∈ w.clients.firstclient := by
    cases e <;> exact (clientListFind_eq_some hfind).1
  cases e with
  | authenticate ip mac =>
    simp only [AccessEvent.find] at hfind
    simp only [AccessEvent.serve, authClientAction, hfind]
    by_cases hauth : client.fwConnectionState = w.fw.fwMarkAuthenticated
    · -- nothing is done
      simp [hauth]
    · have hcounter : w.authenticatedSinceStart + 1 ≠ w.authenticatedSinceStart := by omega
      simp only [ne_eq, hauth, not_false_eq_true, if_true, runOn, Prog.run_bind, Prog.pure_eq,
        Prog.run_done, hcounter, false_and, and_false, or_false, true_implies]
      rw [← rulesAdded_iff h]
      have htables := @tables_of_access out w.fw
        { client with fwConnectionState := w.fw.fwMarkAuthenticated } w.config .makeAuthenticated h
      rw [← runOn, htables]
      rfl
  | deauthenticate ip mac =>
    simp only [AccessEvent.find] at hfind
    simp only [AccessEvent.serve, authClientAction, hfind]
    exact removeClient_follows_iff hmem h
  | timeout now node =>
    simp only [AccessEvent.find] at hfind
    simp only [AccessEvent.serve, refreshClient, hfind]
    by_cases hout : timedOut now w client
    · have hremoved : ∀ {α : Type} (a b : α),
          (if client.counters.lastUpdated + int32 (w.config.checkinterval * w.config.clienttimeout) ≤ now
            then a
            else if client.addedTime + int32 (w.config.checkinterval * w.config.clientforceout) ≤ now
              then a else b) = a := by
        intro α a b
        rcases hout with hidle | hlong
        · rw [if_pos hidle]
        · rw [if_pos hlong, ite_self]
      rw [hremoved]
      simpa [hout] using removeClient_follows_iff hmem h
    · obtain ⟨hidle, hlong⟩ := not_or.mp hout
      rw [if_neg hidle, if_neg hlong]
      simp [hout]

/-- A machine on which every command fails. -/
def failingOutside : Outside := ⟨fun _ _ => 1, fun _ _ _ => []⟩

/-- A client of the portal. -/
def listedClient (fwConnectionState : BitVec 32) : Client :=
  { addr := 1
    ip := "10.0.0.7".toList
    mac := "00:11:22:33:44:55".toList
    token := none
    fwConnectionState := fwConnectionState
    idx := 0 }

/-- A daemon with one client. -/
def oneClientWorld (fwConnectionState : BitVec 32) : World :=
  { config := {}
    fw := { fwMarkAuthenticated := 0x400 }
    clients :=
      { firstclient := [listedClient fwConnectionState]
        clientArr := [some 1]
        clientCount := 1 } }

/-- A router with the given rules in `ndsOUT` and `ndsINC`. -/
def routerWith (outgoing incoming : List IptablesRule) : Host :=
  { tables := fun _ => ⟨[(CHAIN_OUTGOING, outgoing), (CHAIN_INCOMING, incoming)], by simp; decide⟩ }

/-- While `iptables` fails, an authentication is recorded without its rules, and a
client leaves the list while its rules stay.
SOURCE: auth.c:110-131 -/
theorem record_does_not_follow :
    ¬RecordFollows failingOutside (oneClientWorld 0) (routerWith [] [])
        (.authenticate "10.0.0.7".toList "00:11:22:33:44:55".toList) ∧
      ¬RecordFollows failingOutside (oneClientWorld 0x400)
        (routerWith [outgoingRule (oneClientWorld 0x400).fw (listedClient 0x400)]
          (incomingRules (oneClientWorld 0x400).fw (listedClient 0x400)))
        (.deauthenticate "10.0.0.7".toList "00:11:22:33:44:55".toList) := by
  constructor
  · intro h
    rcases h (listedClient 0) (by decide) with hadded | ⟨-, hcounter, -⟩
    · obtain ⟨rs, -, hrs⟩ := hadded.outgoing
      have hempty : outgoingOf (runOn failingOutside (AccessEvent.serve (oneClientWorld 0)
          (.authenticate "10.0.0.7".toList "00:11:22:33:44:55".toList)) (routerWith [] [])).2.tables =
          some [] := by
        decide +kernel
      have hnew := hempty.symm.trans hrs
      simp at hnew
    · exact absurd hcounter (by decide +kernel)
  · intro h
    rcases h (listedClient 0x400) (by decide) with hkept | hremoved
    · exact absurd (congrArg ClientList.clientCount hkept) (by decide +kernel)
    · exact absurd hremoved.outgoing (by decide +kernel)

end WifiCat.Analysis
