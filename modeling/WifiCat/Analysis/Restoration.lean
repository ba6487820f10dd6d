import WifiCat.Analysis.Destroy
import WifiCat.Analysis.SessionInvariant

/-!
# Stopping the daemon restores the firewall

Whatever part of `iptables_fw_init` has run, and whatever part of a session after it, the
tables are an overlay over the tables of the router: `iptables_fw_init` makes chains of the
portal and inserts the jumps `iptables_fw_destroy` looks for, a session edits chains of the
portal only.  `iptables_fw_destroy` therefore gives the tables of the router back.
-/

set_option autoImplicit false

namespace WifiCat.Analysis

open CommandProgram Netfilter Scan

variable {out : Outside} {config : Config} {fw : Firewall} {k : TableName} {c : String}

/-! ## The commands of a start-up, in order -/

/-- The command a question carried out, given the exit status. -/
def carriedOut : (e : Event) → e.Answer → Option IptablesCommand
  | .execute (.iptables cmd), rc => if rc = 0 then some cmd else none
  | _, _ => none

theorem along_iptablesDoCommand (fwQuiet : Bool) (cmd : IptablesCommand) :
    Prog.Along carriedOut (iptablesDoCommand fwQuiet cmd) [cmd] := by
  have hexecute : Prog.Along carriedOut (execute (.iptables cmd)) [cmd] := by
    refine Prog.along_question fun rc => ?_
    by_cases hrc : (rc : BitVec 32) = 0
    · exact Or.inr (if_pos hrc)
    · exact Or.inl (if_neg hrc)
  have hretry : ∀ n, Prog.Along carriedOut (executeRetrying cmd n) [cmd] := by
    intro n
    induction n with
    | zero => exact hexecute
    | succ n ih =>
      -- an attempt that is repeated was not carried out
      intro rc
      by_cases hrc : (rc : BitVec 32) = 0
      · subst hrc
        exact ⟨[], List.Sublist.refl _, trivial⟩
      · have hnone : carriedOut (.execute (.iptables cmd)) rc = none := if_neg hrc
        rw [hnone]
        change Prog.Along carriedOut (if rc = 4 then executeRetrying cmd n else pure rc) [cmd]
        split
        · exact ih
        · trivial
  refine Prog.along_bind_nil (hretry 4) fun rc => ?_
  refine Prog.along_bind_nil ?_ fun _ => trivial
  split
  · intro r
    trivial
  · trivial

theorem along_iptablesDoCommands (fwQuiet : Bool) (cmds : List IptablesCommand) :
    Prog.Along carriedOut (iptablesDoCommands fwQuiet cmds) cmds := by
  have hloop := Prog.along_foldlM (l := cmds) (g := id)
    (f := fun rc cmd => do return rc ||| (← iptablesDoCommand fwQuiet cmd)) (b := 0)
    fun rc cmd _ => Prog.along_bind_nil (along_iptablesDoCommand fwQuiet cmd) fun _ => trivial
  rwa [List.map_id] at hloop

theorem along_tcDoCommands (cmds : List TcCommand) :
    Prog.Along carriedOut (tcDoCommands cmds) [] := by
  have hall : ∀ rc : BitVec 32, Prog.Along carriedOut
      (cmds.foldlM (fun rc cmd => do return rc ||| (← execute (.tc cmd))) rc) [] := by
    induction cmds with
    | nil => exact fun _ => trivial
    | cons cmd cmds ih =>
      intro rc
      rw [List.foldlM_cons]
      exact fun rc' => ih _
  exact hall 0

/-- The firewall commands of `tc_init_tc`.
SOURCE: tc.c:204, 219 -/
def imqCommands (config : Config) : List IptablesCommand :=
  [⟨.mangle, .append CHAIN_INCOMING ⟨[], .ext (.IMQ config.downloadImq)⟩⟩,
    ⟨.mangle, .append CHAIN_OUTGOING ⟨[], .ext (.IMQ config.uploadImq)⟩⟩]

theorem along_tcInitTc (fwQuiet : Bool) (config : Config) :
    Prog.Along carriedOut (tcInitTc fwQuiet config) (imqCommands config) := by
  have hset : ∀ (dev : Text) (rc : BitVec 32) (cmd : IptablesCommand)
      (rest : BitVec 32 → Program (BitVec 32)), (∀ r, Prog.Along carriedOut (rest r) []) →
      Prog.Along carriedOut (do
        let ret ← execute (.tc (.linkSet dev true))
        if ret ≠ 0 then pure rc
        else
          let rc₁ ← iptablesDoCommand fwQuiet cmd
          rest rc₁) [cmd] := by
    intro dev rc cmd rest hrest ret
    change Prog.Along carriedOut (if ret ≠ 0 then pure rc else _) [cmd]
    split
    · trivial
    · exact Prog.along_bind_nil (along_iptablesDoCommand fwQuiet cmd) hrest
  have hattach : ∀ (dev : Text) (limit : ℤ) (f : BitVec 32 → BitVec 32),
      Prog.Along carriedOut (do return f (← tcAttachQdisc dev limit)) [] := by
    intro dev limit f
    exact Prog.along_bind_nil (along_tcDoCommands _) fun _ => trivial
  refine Prog.along_bind (l := [_]) ?_ fun rc => ?_
  · unfold tcInitDownload
    split
    · exact hset _ _ _ _ fun rc => hattach _ _ _
    · trivial
  · unfold tcInitUpload
    split
    · exact hset _ _ _ _ fun rc₁ => hattach _ _ _
    · trivial

/-- The commands of `iptables_fw_init` after the probes, if it runs all of them.
SOURCE: fw_iptables.c:367-593 -/
def initCommands (fw : Firewall) (config : Config) : List IptablesCommand :=
  mangleCommands fw config ++ imqCommands config ++ natCommands fw config ++
    filterCommands fw config

theorem along_fwInitTables (fw : Firewall) (config : Config) :
    Prog.Along carriedOut (iptablesFwInitTables fw config) (initCommands fw config) := by
  have htc : Prog.Along carriedOut (if config.trafficControl then tcInitTc fw.fwQuiet config
      else pure 0) (imqCommands config) := by
    split
    · exact along_tcInitTc fw.fwQuiet config
    · trivial
  unfold initCommands
  rw [List.append_assoc, List.append_assoc]
  refine Prog.along_bind (along_iptablesDoCommands _ _) fun _ => ?_
  refine Prog.along_bind htc fun _ => ?_
  refine Prog.along_bind (along_iptablesDoCommands _ _) fun _ => ?_
  exact Prog.along_bind_nil (along_iptablesDoCommands _ _) fun _ => trivial

/-- INTERNAL: **a stopped start-up has had the effects of some of its commands**, in order.
SOURCE: fw_iptables.c:367-593 -/
theorem exists_initCommands (n : ℕ) (h : Host) {α : Type} (f : BitVec 32 → α) :
    ∃ cmds : List IptablesCommand, cmds.Sublist (initCommands fw config) ∧
      Cmd.applyAll (cmds.map readCommand) h.tables =
        some (Prog.runFor (Host.answer out) n (f <$> iptablesFwInitTables fw config)
          h).tables := by
  have hnone : ∀ (e : Event) (s : Host), carriedOut e (Host.answer out e s).1 = none →
      (Host.answer out e s).2.tables = s.tables := by
    intro e s hc
    cases e with
    | list table chain => rfl
    | logStatus rc cmd => rfl
    | execute cmd =>
      cases cmd with
      | tc cmd =>
        simp only [Host.answer]
        split <;> rfl
      | iptables cmd =>
        rcases (run_execute_cases out cmd s).1 with ⟨hzero, -⟩ | ⟨-, hsame⟩
        · exact absurd (hc.symm.trans (if_pos hzero)) (by simp)
        · exact hsame
  let apply : Tables → IptablesCommand → Option Tables := fun ts cmd => (readCommand cmd).apply ts
  have hsome : ∀ (e : Event) (s : Host) cmd, carriedOut e (Host.answer out e s).1 = some cmd →
      apply s.tables cmd = some (Host.answer out e s).2.tables := by
    intro e s cmd hc
    cases e with
    | list table chain => cases hc
    | logStatus rc cmd => cases hc
    | execute cmd' =>
      cases cmd' with
      | tc cmd => cases hc
      | iptables cmd' =>
        rcases (run_execute_cases out cmd' s).1 with ⟨hzero, hts⟩ | ⟨hne, -⟩
        · cases (hc.symm.trans (if_pos hzero))
          exact (iptables_eq_some hts).2
        · exact absurd (hc.symm.trans (if_neg hne)) (by simp)
  have halong : Prog.Along carriedOut (f <$> iptablesFwInitTables fw config)
      (initCommands fw config) := by
    rw [map_eq_pure_bind]
    exact Prog.along_bind_nil (along_fwInitTables fw config) fun _ => trivial
  obtain ⟨cmds, hcmds, happly⟩ := Prog.exists_sublist hnone hsome n halong h
  refine ⟨cmds, hcmds, ?_⟩
  rw [Cmd.applyAll, List.foldlM_map]
  exact happly

/-! ## The jumps of a start-up -/

/-- The jumps inserted into the chains of a table.
SOURCE: fw_iptables.c:374-377, 429, 473, 522 -/
def portalJumps (config : Config) : TableName → List IptablesCommand
  | .mangle => [⟨.mangle, .insert "PREROUTING" 0 (gatewayJump config CHAIN_OUTGOING)⟩,
      ⟨.mangle, .insert "PREROUTING" 1 (gatewayJump config CHAIN_BLOCKED)⟩,
      ⟨.mangle, .insert "PREROUTING" 2 (gatewayJump config CHAIN_TRUSTED)⟩,
      ⟨.mangle, .insert "POSTROUTING" 0
        ⟨[.outInterface config.gwInterface, .destination config.gwIprange],
          .jump CHAIN_INCOMING⟩⟩]
  | .nat => [⟨.nat, .insert "PREROUTING" 0 (gatewayJump config CHAIN_OUTGOING)⟩]
  | .filter => [⟨.filter, .insert "INPUT" 0 (gatewayJump config CHAIN_TO_ROUTER)⟩,
      ⟨.filter, .insert "FORWARD" 0 (gatewayJump config CHAIN_TO_INTERNET)⟩]

/-- INTERNAL: every jump is one that is looked for, and stands among the first three rules.
SOURCE: fw_iptables.c:374-377, 636-670 -/
theorem portalJumps_mem {cmd : IptablesCommand} (hcmd : cmd ∈ portalJumps config k) :
    ∃ c n r d, cmd = ⟨k, .insert c n r⟩ ∧ n < 3 ∧ r.target = .jump d ∧ d ∈ portalChains k ∧
      (c, d) ∈ portalMentions k := by
  cases k <;> simp only [portalJumps, List.mem_cons, List.not_mem_nil, or_false] at hcmd
  · rcases hcmd with rfl | rfl | rfl | rfl <;>
      exact ⟨_, _, _, _, rfl, by decide, rfl, by decide, by decide⟩
  · subst hcmd
    exact ⟨_, _, _, _, rfl, by decide, rfl, by decide, by decide⟩
  · rcases hcmd with rfl | rfl <;>
      exact ⟨_, _, _, _, rfl, by decide, rfl, by decide, by decide⟩

/-- INTERNAL: the jumps of one chain are inserted one behind the other. -/
theorem portalJumps_pairwise (config : Config) (k : TableName) :
    (portalJumps config k).Pairwise Overlay.Before := by
  cases k <;> simp [portalJumps, Overlay.before_insert]

/-- INTERNAL: `iptables` reads the jumps as they are written. -/
theorem readCommand_portalJumps (config : Config) (k : TableName) :
    (portalJumps config k).map readCommand = portalJumps config k := by
  cases k <;> simp [portalJumps, Cmd.mapRule, Op.mapRule, readRule, gatewayJump, Match.read]

/-- The commands of a list that name a chain that is not the portal's. -/
def outsideCommands (cmds : List IptablesCommand) : List IptablesCommand :=
  cmds.filter fun cmd => decide (cmd.op.chain ∉ portalChains cmd.table)

theorem outsideCommands_append (cmds cmds' : List IptablesCommand) :
    outsideCommands (cmds ++ cmds') = outsideCommands cmds ++ outsideCommands cmds' :=
  List.filter_append _ _

theorem outsideCommands_eq_nil {S : List Place} {cmds : List IptablesCommand}
    (h : NamesIn S cmds) (hS : ∀ x ∈ S, x.2 ∈ portalChains x.1) : outsideCommands cmds = [] := by
  refine List.filter_eq_nil_iff.mpr fun cmd hcmd => ?_
  have hmem := hS _ (h cmd hcmd)
  simpa using hmem

/-- INTERNAL: apart from the jumps, a start-up edits chains of the portal only.
SOURCE: fw_iptables.c:367-593 -/
theorem outsideCommands_init (fw : Firewall) (config : Config) :
    outsideCommands (initCommands fw config) =
      portalJumps config .mangle ++ portalJumps config .nat ++ portalJumps config .filter := by
  have hmangle : outsideCommands (mangleCommands fw config) = portalJumps config .mangle := by
    have hmac : NamesIn [(.mangle, CHAIN_TRUSTED), (.mangle, CHAIN_BLOCKED)]
        (macCommands fw config) := by
      unfold macCommands
      refine NamesIn.append (by simp [NamesIn, iptablesTrustMac, Op.chain]) ?_
      cases config.macmechanism <;>
        simp [NamesIn, iptablesBlockMac, iptablesAllowMac, Op.chain]
    unfold mangleCommands
    rw [outsideCommands_append, outsideCommands_eq_nil hmac (by decide), List.append_nil]
    rfl
  have himq : outsideCommands (imqCommands config) = [] := rfl
  have hnat : outsideCommands (natCommands fw config) = portalJumps config .nat := by
    unfold natCommands
    rw [outsideCommands_append, outsideCommands_append,
      outsideCommands_eq_nil (namesIn_appendRuleset _ _ _ _) (by decide)]
    rfl
  have hrouter : outsideCommands (toRouterCommands fw config) =
      [⟨.filter, .insert "INPUT" 0 (gatewayJump config CHAIN_TO_ROUTER)⟩] := by
    unfold toRouterCommands
    rw [outsideCommands_append, outsideCommands_append,
      outsideCommands_eq_nil (namesIn_markedCommands _ _ _ _) (by decide)]
    split
    · rfl
    · rw [outsideCommands_append,
        outsideCommands_eq_nil (namesIn_appendRuleset _ _ _ _) (by decide)]
      rfl
  have hinternet : outsideCommands (toInternetCommands fw config) =
      [⟨.filter, .insert "FORWARD" 0 (gatewayJump config CHAIN_TO_INTERNET)⟩] := by
    unfold toInternetCommands
    simp only [outsideCommands_append]
    rw [outsideCommands_eq_nil (namesIn_markedCommands _ _ _ _) (by decide),
      outsideCommands_eq_nil (namesIn_markedCommands _ _ _ _) (by decide)]
    have hmss : ∀ b : Bool, ∀ cmds, outsideCommands cmds = [] →
        outsideCommands (if b then cmds else []) = [] := by
      intro b cmds h
      cases b
      · rfl
      · exact h
    rw [hmss _ _ rfl]
    split
    · rfl
    · rw [outsideCommands_eq_nil (namesIn_appendRuleset _ _ _ _) (by decide)]
      rfl
  unfold initCommands filterCommands
  simp only [outsideCommands_append]
  rw [hmangle, himq, hnat, hrouter, hinternet]
  simp only [List.append_nil, List.append_assoc]
  rfl

/-- INTERNAL: the commands of a start-up that name one chain that is not the portal's.
SOURCE: fw_iptables.c:367-593 -/
theorem filter_initCommands (hc : c ∉ portalChains k) :
    ((initCommands fw config).map readCommand).filter (Cmd.onChain k c) =
      (portalJumps config k).filter (Cmd.onChain k c) := by
  have honly : ∀ cmds : List IptablesCommand,
      (cmds.map readCommand).filter (Cmd.onChain k c) =
        ((outsideCommands cmds).map readCommand).filter (Cmd.onChain k c) := by
    intro cmds
    have hcomp : Cmd.onChain k c ∘ readCommand = Cmd.onChain k c := by
      funext cmd
      simp [Cmd.onChain, Cmd.mapRule]
    rw [List.filter_map, List.filter_map, hcomp, outsideCommands, List.filter_filter]
    refine congrArg _ (List.filter_congr fun cmd _ => ?_)
    by_cases hon : Cmd.onChain k c cmd = true
    · simp only [Cmd.onChain, Bool.and_eq_true, decide_eq_true_eq] at hon
      simp [Cmd.onChain, hon, hc]
    · simp [hon]
  have hother : ∀ k', k' ≠ k → (portalJumps config k').filter (Cmd.onChain k c) = [] := by
    intro k' hk'
    refine List.filter_eq_nil_iff.mpr fun cmd hcmd => ?_
    obtain ⟨d, n, r, -, rfl, -⟩ := portalJumps_mem hcmd
    simp [Cmd.onChain, hk']
  rw [honly, outsideCommands_init]
  simp only [List.map_append, readCommand_portalJumps, List.filter_append]
  cases k
  · simp [hother .nat (by decide), hother .filter (by decide)]
  · simp [hother .mangle (by decide), hother .filter (by decide)]
  · simp [hother .mangle (by decide), hother .nat (by decide)]

/-- INTERNAL: **a stopped start-up lays an overlay** over the tables of the router, with
the jumps that `iptables_fw_destroy` looks for.
SOURCE: fw_iptables.c:367-593 -/
theorem overlay_of_initCommands {base us : Tables} {cmds : List IptablesCommand}
    (hbase : ∀ k, Overlay (portalChains k) (Mentioned (portalMentions k)) 0 (base k) (base k))
    (hcmds : cmds.Sublist (initCommands fw config))
    (happly : Cmd.applyAll (cmds.map readCommand) base = some us) (k : TableName) :
    PortalTable k (portalMentions k) (base k) (us k) := by
  have hfilter : ∀ k c, c ∉ portalChains k →
      ((cmds.map readCommand).filter (Cmd.onChain k c)).Sublist
        ((portalJumps config k).filter (Cmd.onChain k c)) := by
    intro k c hc
    rw [← filter_initCommands hc]
    exact (hcmds.map readCommand).filter _
  refine Overlay.of_applyAll hbase happly ?_ ?_ ?_ k
  · intro cmd hcmd c hop
    obtain ⟨cmd', hcmd', rfl⟩ := List.mem_map.mp hcmd
    by_cases hown : cmd'.op.chain ∈ portalChains cmd'.table
    · have hchain : (readCommand cmd').op.chain = c := by
        rcases hop with hop | hop <;> rw [hop] <;> rfl
      rw [← hchain]
      simpa [Cmd.mapRule] using hown
    · have hout : cmd' ∈ outsideCommands (initCommands fw config) :=
        List.mem_filter.mpr ⟨hcmds.subset hcmd', by simpa using hown⟩
      rw [outsideCommands_init] at hout
      have hjump : ∃ k, cmd' ∈ portalJumps config k := by
        rcases List.mem_append.mp hout with hout | hout
        · rcases List.mem_append.mp hout with hout | hout
          · exact ⟨_, hout⟩
          · exact ⟨_, hout⟩
        · exact ⟨_, hout⟩
      obtain ⟨k, hjump⟩ := hjump
      obtain ⟨d, n, r, e, rfl, -⟩ := portalJumps_mem hjump
      rcases hop with hop | hop <;> cases hop
  · intro k c hc cmd hcmd
    have hmem := List.mem_filter.mp ((hfilter k c hc).subset hcmd)
    obtain ⟨d, n, r, e, rfl, hn, htarget, he, hde⟩ := portalJumps_mem hmem.1
    have hd : d = c := of_decide_eq_true (Bool.and_eq_true_iff.mp hmem.2).2
    subst hd
    refine ⟨n, r, rfl, hn, Rule.jumpsInto_iff.mpr ⟨e, he, htarget⟩, fun f hf => ?_⟩
    rw [htarget, Target.jump.injEq] at hf
    exact hf ▸ hde
  · intro k c hc
    exact (portalJumps_pairwise config k).sublist
      ((hfilter k c hc).trans List.filter_sublist)

/-! ## The probes -/

/-- The deletions of the probes' own test rules are let through. -/
def ProbesUndone (out : Outside) : Prop :=
  ∀ n table c num, out.status n (.iptables ⟨table, .deleteNum c num⟩) = 0

/-- INTERNAL: a probe leaves no rule behind.
SOURCE: fw_iptables.c:121-142 -/
theorem tables_of_probe (hprobes : ProbesUndone out) (table : TableName) (r : IptablesRule)
    {α : Type} (a b : α) (fwQuiet : Bool) (h : Host) :
    (runOn out (do
      let rc ← iptablesDoCommand fwQuiet ⟨table, .insert c 0 r⟩
      if rc = 0 then
        let _ ← iptablesDoCommand fwQuiet ⟨table, .deleteNum c 0⟩
        pure a
      else pure b) h).2.tables = h.tables := by
  have hcases := iptablesDoCommand_cases out fwQuiet ⟨table, .insert c 0 r⟩ h
  simp only [runOn, Prog.run_bind] at hcases ⊢
  generalize Prog.run (Host.answer out) (iptablesDoCommand fwQuiet ⟨table, .insert c 0 r⟩) h = s
    at hcases
  rcases hcases with ⟨hzero, hinsert, -⟩ | ⟨hne, hsame, -⟩
  · rw [hzero, if_pos rfl]
    have hundo := tables_of_obliging
      (fun n => hprobes n table c 0) fwQuiet s.2
    obtain ⟨t, ht, hs⟩ := Option.map_eq_some_iff.mp (iptables_eq_some hinsert).2
    have happly : iptables ⟨table, .deleteNum c 0⟩ s.2.tables = some h.tables := by
      have hdelete := Op.deleteNum_of_insert ht
      rw [← hs]
      simp only [iptables, Op.rule, Option.all_none, if_true, Cmd.mapRule, Op.mapRule, Cmd.apply,
        Function.update_self, hdelete, Option.map_some]
      simp
    rw [happly] at hundo
    simpa only [runOn, Option.getD_some, Prog.run_bind, Prog.pure_eq, Prog.run_done] using hundo
  · rw [if_neg hne]
    exact hsame

/-- INTERNAL: the probes leave the tables as they were.
SOURCE: fw_iptables.c:115-150, 351-358 -/
theorem tables_of_fwInitMarks (hprobes : ProbesUndone out) (config : Config) (fw : Firewall)
    (h : Host) : (runOn out (iptablesFwInitMarks config fw) h).2.tables = h.tables := by
  have hor : ∀ (fw : Firewall) (h : Host),
      (runOn out (checkOrMark fw) h).2.tables = h.tables :=
    fun fw h => tables_of_probe hprobes _ _ _ _ _ h
  have hmask : ∀ (fw : Firewall) (h : Host),
      (runOn out (checkMasking fw) h).2.tables = h.tables :=
    fun fw h => tables_of_probe hprobes _ _ _ _ _ h
  simp only [runOn, iptablesFwInitMarks, iptablesCheckMarkMasking, Prog.run_bind, Prog.pure_eq,
    Prog.run_done] at hor hmask ⊢
  rw [hmask, hor]

/-! ## Restoration -/

/-- INTERNAL: a stopped start-up, past its probes.
SOURCE: fw_iptables.c:314-605 -/
theorem overlay_of_fwInit {h : Host} (hprobes : ProbesUndone out)
    (hbase : ∀ k, Overlay (portalChains k) (Mentioned (portalMentions k)) 0 (h.tables k)
      (h.tables k)) {n : ℕ}
    (hn : Prog.questions (Host.answer out) (iptablesFwInitMarks config fw) h ≤ n)
    (k : TableName) :
    PortalTable k (portalMentions k) (h.tables k)
      ((Prog.runFor (Host.answer out) n (iptablesFwInit config fw) h).tables k) := by
  have hmarks := tables_of_fwInitMarks hprobes config fw h
  simp only [runOn] at hmarks
  unfold iptablesFwInit
  rw [Prog.runFor_bind, if_neg (by omega)]
  generalize Prog.run (Host.answer out) (iptablesFwInitMarks config fw) h = marks at hmarks
  obtain ⟨cmds, hcmds, happly⟩ := exists_initCommands (n - Prog.questions (Host.answer out) (iptablesFwInitMarks config fw) h)
    marks.2 fun rc => (marks.1.1 ||| rc, marks.1.2)
  rw [hmarks, map_eq_pure_bind] at happly
  exact overlay_of_initCommands hbase hcmds happly k

/-- INTERNAL: a stopped session keeps the overlay.
SOURCE: ndsctl_thread.c:275-458, auth.c:91-134, firewall.c:143-199 -/
theorem overlay_of_session {base : Tables} {h : Host}
    (hover : ∀ k, PortalTable k (portalMentions k) (base k) (h.tables k))
    (requests : List Request) (w : World) (m : ℕ) (k : TableName) :
    PortalTable k (portalMentions k) (base k)
      ((Prog.runFor (Host.answer out) m (session requests w) h).tables k) := by
  have hown : ∀ x ∈ sessionPlaces, x.2 ∈ portalChains x.1 := by
    rintro x ((rfl | rfl) | (rfl | rfl)) <;> decide
  refine Prog.runFor_invariant (I := fun s : Host =>
      ∀ k, PortalTable k (portalMentions k) (base k) (s.tables k)) ?_ m
    (touches_session requests w) hover k
  intro e s hplaces hs
  cases e with
  | list table chain => exact hs
  | logStatus rc cmd => exact hs
  | execute cmd =>
    cases cmd with
    | tc cmd =>
      simp only [Host.answer]
      split <;> exact hs
    | iptables cmd =>
      have hcases := (run_execute_cases out cmd s).1
      simp only [runOn, execute, Prog.run_question] at hcases
      rcases hcases with ⟨-, hts⟩ | ⟨-, hsame⟩
      · intro k'
        obtain ⟨t, ht, hupdate⟩ := Option.map_eq_some_iff.mp (iptables_eq_some hts).2
        rw [← hupdate]
        by_cases hk : cmd.table = k'
        · subst hk
          have hplace := hown _ (hplaces _ rfl (cmd.table, cmd.op.chain) rfl)
          have hedit := (hs cmd.table).edit ht (by simpa [Cmd.mapRule] using hplace)
          simpa [Cmd.mapRule] using hedit
        · rw [Function.update_of_ne (by simpa [Cmd.mapRule] using Ne.symm hk)]
          exact hs k'
      · rw [hsame]
        exact hs

/-- **Stopping the daemon restores the firewall**: after a start-up stopped anywhere past its probes
and a session stopped anywhere, `iptables_fw_destroy` returns and leaves the tables of the router,
and running it again leaves them once more.
SOURCE: fw_iptables.c:314-605, 611-742 -/
theorem destroy_restores_firewall (out out' : Outside) (hprobes : ProbesUndone out)
    (hlisting : Listing out') (hout : Obliging out') (config config' : Config)
    (fw fw' : Firewall) (h : Host) (hforeign : Foreign out' h.tables) (n : ℕ)
    (hn : Prog.questions (Host.answer out) (iptablesFwInitMarks config fw) h ≤ n)
    (requests : List Request) (w : World) (m fuel : ℕ) (hfuel : 4 ≤ fuel) :
    let started := Prog.runFor (Host.answer out) n (iptablesFwInit config fw) h
    let stopped := Prog.runFor (Host.answer out) m (session requests w) started
    let once := runOn out' (iptablesFwDestroy fuel config' fw') stopped
    let twice := runOn out' (iptablesFwDestroy fuel config' once.1.2) once.2
    once.1.1 = true ∧ once.2.tables = h.tables ∧
      twice.1.1 = true ∧ twice.2.tables = h.tables := by
  intro started stopped once twice
  have hstarted : ∀ k, PortalTable k (portalMentions k) (h.tables k) (started.tables k) :=
    overlay_of_fwInit hprobes (fun k => hforeign.overlay hlisting k) hn
  have hstopped : ∀ k, PortalTable k (portalMentions k) (h.tables k) (stopped.tables k) :=
    overlay_of_session hstarted requests w m
  obtain ⟨hdone, honce⟩ := destroy_restores hlisting hout hforeign hfuel config' fw' hstopped
  refine ⟨hdone, honce, ?_⟩
  refine destroy_restores hlisting hout hforeign hfuel config' once.1.2 fun k => ?_
  rw [honce]
  exact hforeign.overlay hlisting k

/-- A machine that lets every command pass and lists a rule's number and target. -/
def listingMachine : Outside where
  status _ _ := 0
  line _ num r := Nat.toDigits 10 num ++ ' ' ::
    match r.target with
    | .jump c => c.toList
    | .verdict .ACCEPT => "ACCEPT".toList
    | _ => []

theorem listing_listingMachine : Listing listingMachine where
  number _ _ _ := ⟨_, rfl⟩
  jump n num r d htarget := by
    refine decide_eq_true ?_
    simp only [listingMachine, htarget]
    exact ⟨Nat.toDigits 10 num ++ [' '], [], by simp⟩

/-- A router with a rule of its own. -/
def sampleRouter : Host where
  tables k :=
    match k with
    | .mangle => emptyRouter.tables .mangle
    | .nat => emptyRouter.tables .nat
    | .filter => ⟨[("INPUT", [⟨[], .verdict .ACCEPT⟩]), ("FORWARD", [])], by decide⟩

theorem foreign_sampleRouter : Foreign listingMachine sampleRouter.tables where
  chains k := by cases k <;> decide
  lines k c rs hrs r hr d hd n num := by
    have hline : 's' ∉ listingMachine.line n num r := by
      have htarget : r = ⟨[], .verdict .ACCEPT⟩ := by
        cases k <;> simp only [sampleRouter, emptyRouter, Table.rules, List.lookup_cons, List.lookup_nil] at hrs
        · split at hrs <;> [skip; split at hrs] <;> cases hrs <;> cases hr
        · split at hrs <;> cases hrs; cases hr
        · split at hrs <;> [skip; split at hrs] <;> cases hrs
          · exact List.mem_singleton.mp hr
          · cases hr
      subst htarget
      simp only [listingMachine, List.mem_append, not_or]
      refine ⟨fun hs => ?_, by decide⟩
      exact absurd (Nat.isDigit_of_mem_toDigits (by decide) (by decide) hs) (by decide)
    have hs : 's' ∈ d.toList := by
      revert d
      cases k <;> decide
    refine decide_eq_false fun hinner => hline (hinner.subset hs)

/-- The theorem on a start-up stopped after twenty questions and a short session. -/
theorem destroy_restores_firewall_sample :
    let started := Prog.runFor (Host.answer listingMachine) 20 (iptablesFwInit {} {}) sampleRouter
    let stopped := Prog.runFor (Host.answer listingMachine) 5
      (session sampleRequests ⟨{}, {}, clientListInit 20, 0⟩) started
    (runOn listingMachine (iptablesFwDestroy 4 {} {}) stopped).2.tables = sampleRouter.tables :=
  (destroy_restores_firewall listingMachine listingMachine (fun _ _ _ _ => rfl)
    listing_listingMachine (fun _ _ => rfl) {} {} {} {} sampleRouter foreign_sampleRouter 20
    (by decide +kernel) sampleRequests ⟨{}, {}, clientListInit 20, 0⟩ 5 4 le_rfl).2.1

end WifiCat.Analysis
