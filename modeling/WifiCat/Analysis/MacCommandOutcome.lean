import WifiCat.Analysis.MacChains

/-!
# The outcome of a control command

A control command on a MAC address changes its list first and the firewall second, and
does not take the list back when the firewall refuses.  The results here are about any
machine: nothing is assumed of what `/bin/sh` does with an argument that is not a MAC
address, and a command on a MAC address has its effect when it exits 0 and none
otherwise.
-/

set_option autoImplicit false

namespace WifiCat.Analysis

open CommandProgram Netfilter Scan

/-! ## Machines -/

/-- The MAC addresses in a command are MAC addresses, so the shell hands them to `iptables`
as they are. -/
def plain (cmd : IptablesCommand) : Bool :=
  cmd.op.rule.all fun r => r.conds.all fun m =>
    match m with
    | .macSource mac => isMacAddress mac
    | _ => true

/-- A machine: how it answers, the tables in it, and that a plain command that exits 0 was
carried out and one that does not had no effect. -/
structure Machine (σ : Type) where
  answer : (e : Event) → σ → e.Answer × σ
  tables : σ → Tables
  execute : ∀ cmd s, plain cmd = true →
    ((answer (.execute (.iptables cmd)) s).1 = 0 ∧
      iptables cmd (tables s) = some (tables (answer (.execute (.iptables cmd)) s).2)) ∨
    ((answer (.execute (.iptables cmd)) s).1 ≠ 0 ∧
      tables (answer (.execute (.iptables cmd)) s).2 = tables s)
  logStatus : ∀ rc cmd s, tables (answer (.logStatus rc cmd) s).2 = tables s

/-- The machine of the other results. -/
def hostMachine (out : Outside) : Machine Host where
  answer := Host.answer out
  tables := Host.tables
  execute := by
    intro cmd s _
    simp only [Host.answer]
    split
    · next hrc => exact Or.inr ⟨hrc, rfl⟩
    · cases hts : iptables cmd s.tables with
      | some ts => exact Or.inl ⟨rfl, rfl⟩
      | none => exact Or.inr ⟨(by decide : (1 : BitVec 32) ≠ 0), rfl⟩
  logStatus _ _ _ := rfl

variable {σ α : Type} (M : Machine σ) {fw : Firewall} {config : Config} {arg : Text}
  {request : MacRequest}

/-- The run of a program on a machine. -/
abbrev Machine.run (p : Program α) (s : σ) : α × σ := Prog.run M.answer p s

theorem run_executeRetrying_plain {cmd : IptablesCommand} (hplain : plain cmd = true) (n : ℕ)
    (s : σ) :
    ((M.run (executeRetrying cmd n) s).1 = 0 ∧
      iptables cmd (M.tables s) = some (M.tables (M.run (executeRetrying cmd n) s).2)) ∨
    ((M.run (executeRetrying cmd n) s).1 ≠ 0 ∧
      M.tables (M.run (executeRetrying cmd n) s).2 = M.tables s) := by
  induction n generalizing s with
  | zero => exact M.execute cmd s hplain
  | succ n ih =>
    have honce := M.execute cmd s hplain
    simp only [Machine.run, executeRetrying, Prog.run_bind] at ih ⊢
    split
    · next hfour =>
      rcases honce with ⟨hzero, -⟩ | ⟨-, htables⟩
      · exact absurd (hzero.symm.trans hfour) (by decide : (0 : BitVec 32) ≠ 4)
      · rw [← htables]
        exact ih _
    · exact honce

/-- INTERNAL: a plain command exits 0 and has its effect, or has none.
SOURCE: fw_iptables.c:154-188 -/
theorem iptablesDoCommand_plain {cmd : IptablesCommand} (hplain : plain cmd = true)
    (fwQuiet : Bool) (s : σ) :
    ((M.run (iptablesDoCommand fwQuiet cmd) s).1 = 0 ∧
      iptables cmd (M.tables s) = some (M.tables (M.run (iptablesDoCommand fwQuiet cmd) s).2)) ∨
    ((M.run (iptablesDoCommand fwQuiet cmd) s).1 ≠ 0 ∧
      M.tables (M.run (iptablesDoCommand fwQuiet cmd) s).2 = M.tables s) := by
  have hretry := run_executeRetrying_plain M hplain 4 s
  simp only [Machine.run, iptablesDoCommand, Prog.run_bind] at hretry ⊢
  -- logging leaves the tables alone
  have hlog : ∀ (b : Bool) (rc : BitVec 32) (s : σ), M.tables (Prog.run M.answer
      (if b then Prog.question (Event.logStatus rc cmd) else pure () : Program Unit) s).2 =
        M.tables s := by
    intro b rc s
    cases b
    · rfl
    · exact M.logStatus rc cmd s
  simp only [Prog.pure_eq, Prog.run_done] at hlog ⊢
  rw [hlog]
  exact hretry

/-! ## All or nothing -/

/-- The chain a request's command is about. -/
abbrev requestChain (request : MacRequest) : String := macChain (requestListName request)

/-- The command changes the list and the chain and says `Yes`, or changes neither and says
`No`. -/
structure AllOrNothing (fw : Firewall) (request : MacRequest) (arg : Text) (config : Config)
    (s : σ) : Prop where
  yes : (M.run (request.handle fw arg config) s).1.1 = .Yes ↔
    (M.run (request.handle fw arg config) s).1.2.maclist (requestListName request) ≠
        config.maclist (requestListName request) ∧
      (M.tables (M.run (request.handle fw arg config) s).2 .mangle).rules (requestChain request) ≠
        (M.tables s .mangle).rules (requestChain request)
  no : (M.run (request.handle fw arg config) s).1.1 = .No →
    (M.run (request.handle fw arg config) s).1.2.maclist = config.maclist ∧
      (M.tables (M.run (request.handle fw arg config) s).2 .mangle).rules (requestChain request) =
        (M.tables s .mangle).rules (requestChain request)

/-- The request's command exits 0. -/
abbrev CommandSucceeds (fw : Firewall) (request : MacRequest) (arg : Text) (s : σ) : Prop :=
  (M.run (iptablesDoCommand fw.fwQuiet (requestCommand fw request arg)) s).1 = 0

/-- The request's command changes the chain. -/
def CommandChanges (fw : Firewall) (request : MacRequest) (arg : Text) (s : σ) : Prop :=
  (M.tables (M.run (iptablesDoCommand fw.fwQuiet (requestCommand fw request arg)) s).2
      .mangle).rules (requestChain request) ≠ (M.tables s .mangle).rules (requestChain request)

/-- INTERNAL: a command on a MAC address is plain. -/
theorem plain_requestCommand (hmac : isMacAddress arg = true) :
    plain (requestCommand fw request arg) = true := by
  have hrule : ∃ target, (requestCommand fw request arg).op.rule =
      some ⟨[.macSource arg], target⟩ := by
    cases request <;> exact ⟨_, rfl⟩
  obtain ⟨target, hrule⟩ := hrule
  simpa [plain, hrule] using hmac

/-- INTERNAL: a command that adds or removes one rule of a chain changes the chain.
SOURCE: fw_iptables.c:278-312 -/
theorem requestCommand_changes {ts us : Tables}
    (h : iptables (requestCommand fw request arg) ts = some us) :
    (us .mangle).rules (requestChain request) ≠ (ts .mangle).rules (requestChain request) := by
  have hplace : (requestCommand fw request arg).table = .mangle ∧
      (requestCommand fw request arg).op.chain = requestChain request := by
    cases request <;> exact ⟨rfl, rfl⟩
  have hrule : ((requestCommand fw request arg).op.mapRule readRule).rule.isSome := by
    cases request <;> rfl
  obtain ⟨t, ht, -⟩ := Option.map_eq_some_iff.mp (iptables_eq_some h).2
  have hne := Op.effect_ne_of_apply ht hrule
  rw [rules_of_iptables h, if_pos hplace]
  simpa [readCommand, Cmd.mapRule, hplace] using hne

/-- INTERNAL: a handler whose list function refuses.
SOURCE: ndsctl_thread.c:357-362 -/
theorem run_handle_refused (h : (requestList request arg config).1 ≠ 0) (s : σ) :
    M.run (request.handle fw arg config) s = ((.No, config), s) := by
  rcases requestList_cases request arg config with ⟨-, hsame⟩ | ⟨-, -, macs, -, -, hset⟩
  · rw [handle_eq]
    simp [ndsctlMac, h, hsame]
  · rw [hset] at h
    exact absurd rfl h

/-- INTERNAL: a handler whose list function accepts runs its command, and answers by the
command's exit status.
SOURCE: ndsctl_thread.c:352-356 -/
theorem run_handle_accepted (h : (requestList request arg config).1 = 0) (s : σ) :
    M.run (request.handle fw arg config) s =
      ((if CommandSucceeds M fw request arg s then .Yes else .No,
          (requestList request arg config).2),
        (M.run (iptablesDoCommand fw.fwQuiet (requestCommand fw request arg)) s).2) := by
  rw [handle_eq]
  simp only [Machine.run, ndsctlMac, h, if_true, Prog.run_bind, Prog.pure_eq, Prog.run_done]

/-- **A control command is all or nothing** exactly when its list function refuses the argument, or
its command exits 0 and, on an argument that is no MAC address, changes the chain.
SOURCE: ndsctl_thread.c:346-458, conf.c:1452-1531, 1560-1650 -/
theorem mac_command_all_or_nothing_iff (fw : Firewall) (request : MacRequest) (arg : Text)
    (config : Config) (s : σ) :
    AllOrNothing M fw request arg config s ↔
      (requestList request arg config).1 ≠ 0 ∨
      (CommandSucceeds M fw request arg s ∧
        (isMacAddress arg = true ∨ CommandChanges M fw request arg s)) := by
  by_cases haccept : (requestList request arg config).1 = 0
  · have hrun := @run_handle_accepted _ M fw _ _ _ haccept s
    obtain ⟨macs, hmacs, hset⟩ : ∃ macs, macs ≠ config.maclist (requestListName request) ∧
        (requestList request arg config).2 =
          config.setMaclist (requestListName request) macs := by
      rcases requestList_cases request arg config with ⟨hne, -⟩ | ⟨-, -, macs, hne, -, hset⟩
      · exact absurd haccept hne
      · exact ⟨macs, hne, by rw [hset]⟩
    have hlist : (config.setMaclist (requestListName request) macs).maclist
        (requestListName request) = macs := by
      simp [Config.setMaclist]
    by_cases hsucceeds : CommandSucceeds M fw request arg s
    · -- the reply is `Yes`, and the list has changed
      have hchanges : isMacAddress arg = true → CommandChanges M fw request arg s := by
        intro hmac
        rcases iptablesDoCommand_plain M (plain_requestCommand hmac) fw.fwQuiet s with ⟨-, hts⟩ | ⟨hne, -⟩
        · exact requestCommand_changes hts
        · exact absurd hsucceeds hne
      constructor
      · intro h
        have hyes := h.yes.mp (by rw [hrun, if_pos hsucceeds])
        refine Or.inr ⟨hsucceeds, Or.inr ?_⟩
        rw [hrun] at hyes
        exact hyes.2
      · rintro (h | ⟨-, h⟩)
        · exact absurd haccept h
        · refine ⟨?_, ?_⟩
          · rw [hrun, if_pos hsucceeds, hset, hlist]
            exact iff_of_true rfl ⟨hmacs, h.elim hchanges id⟩
          · intro hno
            rw [hrun, if_pos hsucceeds] at hno
            cases hno
    · -- the reply is `No`, but the list has changed
      refine iff_of_false (fun h => ?_) ?_
      · have hno := (h.no (by rw [hrun, if_neg hsucceeds])).1
        rw [hrun, hset] at hno
        exact hmacs (hlist.symm.trans (congrFun hno _))
      · rintro (h | ⟨h, -⟩)
        · exact h haccept
        · exact hsucceeds h
  · refine iff_of_true ⟨?_, fun _ => ?_⟩ (Or.inl haccept)
    · rw [run_handle_refused M haccept]
      exact iff_of_false (by simp) fun h => h.1 rfl
    · rw [run_handle_refused M haccept]
      exact ⟨rfl, rfl⟩

/-- The machine of a router on which every `iptables` command fails. -/
def failingMachine : Machine Host := hostMachine ⟨fun _ _ => 1, fun _ _ _ => []⟩

/-- `ndsctl block 00:11:22:33:44:55` while `iptables` fails answers `No` and
leaves the address on the list.
SOURCE: ndsctl_thread.c:352-362 -/
theorem mac_command_not_all_or_nothing :
    ¬∀ (config : Config) (s : Host) (request : MacRequest) (arg : Text),
      AllOrNothing failingMachine {} request arg config s := by
  intro h
  have hblock := (h {} ⟨fun _ => ⟨[(CHAIN_BLOCKED, [])], by simp⟩, 0, []⟩ .block
    "00:11:22:33:44:55".toList).no
  have hlist := congrFun (hblock rfl).1 .blocked
  exact absurd hlist (by decide)

end WifiCat.Analysis
