import WifiCat.Library.Transcript
import WifiCat.Analysis.OptionParts
import WifiCat.Analysis.Startup

/-!
# What a start-up reports

`iptables_fw_init` ORs the exit statuses of its commands.  A command that is tried several
times has the status of its last attempt (`lastAttempts`).  The return value is zero if and
only if the marks are accepted and the statuses that are looked at are zero
(`fwInit_zero_iff`); the `ip link` command for the download device is not looked at, and nor
are the capability probes and the removal of their rules.  `startup_reports_iff` says which
start-ups report every failure; the marks of a file that was read are always accepted
(`configRead_marksAccepted`).
-/

set_option autoImplicit false

namespace WifiCat.Analysis

open CommandProgram Netfilter Scan Prog

/-! ## Statuses -/

/-- The commands a run has executed, with their exit statuses. -/
def executions (t : List ((e : Event) × e.Answer)) : List (Command × BitVec 32) :=
  t.filterMap fun entry =>
    match entry with
    | ⟨.execute cmd, rc⟩ => some (cmd, rc)
    | ⟨.logStatus _ _, _⟩ => none
    | ⟨.list _ _, _⟩ => none

/-- The last attempt of each command: an `iptables` command that exits 4 is tried again, up to
four times, `n` of which are gone.
SOURCE: fw_iptables.c:172-180 -/
def lastAttempts : ℕ → List (Command × BitVec 32) → List (Command × BitVec 32)
  | _, [] => []
  | _, (.tc cmd, rc) :: l => (.tc cmd, rc) :: lastAttempts 0 l
  | n, (.iptables cmd, rc) :: l =>
    if rc = 4 ∧ n < 4 then lastAttempts (n + 1) l else (.iptables cmd, rc) :: lastAttempts 0 l

variable {σ α β : Type} (h : (e : Event) → σ → e.Answer × σ)

/-- The commands of a run, with the statuses they have ended with. -/
def statuses (p : Program α) (s : σ) : List (Command × BitVec 32) :=
  lastAttempts 0 (executions (transcript h p s))

/-- No command is in the middle of its attempts behind the list. -/
def Closed (l : List (Command × BitVec 32)) : Prop :=
  ∀ rest, lastAttempts 0 (l ++ rest) = lastAttempts 0 l ++ lastAttempts 0 rest

theorem closed_nil : Closed [] := fun _ => rfl

theorem Closed.append {l l' : List (Command × BitVec 32)} (hl : Closed l) (hl' : Closed l') :
    Closed (l ++ l') := by
  intro rest
  rw [List.append_assoc, hl, hl', hl l', List.append_assoc]

theorem executions_append (t t' : List ((e : Event) × e.Answer)) :
    executions (t ++ t') = executions t ++ executions t' := List.filterMap_append

/-- INTERNAL: the attempts of one command.
SOURCE: fw_iptables.c:172-180 -/
theorem attempts_executeRetrying (cmd : IptablesCommand) (n : ℕ) (hn : n ≤ 4) (s : σ)
    (rest : List (Command × BitVec 32)) :
    lastAttempts (4 - n) (executions (transcript h (executeRetrying cmd n) s) ++ rest) =
      (.iptables cmd, (run h (executeRetrying cmd n) s).1) :: lastAttempts 0 rest := by
  induction n generalizing s with
  | zero =>
    change lastAttempts 4 ((Command.iptables cmd, (h (.execute (.iptables cmd)) s).1) :: rest) = _
    rw [lastAttempts, if_neg (by omega)]
    rfl
  | succ n ih =>
    rw [executeRetrying, transcript_bind, executions_append, run_bind]
    change lastAttempts (4 - (n + 1)) ((Command.iptables cmd,
      (h (.execute (.iptables cmd)) s).1) :: (executions _ ++ rest)) = _
    rw [lastAttempts]
    by_cases hfour : (h (.execute (.iptables cmd)) s).1 = 4
    · have hagain : (run h (execute (.iptables cmd)) s).1 = 4 := hfour
      rw [if_pos ⟨hfour, by omega⟩, if_pos hagain, show 4 - (n + 1) + 1 = 4 - n by omega]
      exact ih (by omega) _
    · have hdone : (run h (execute (.iptables cmd)) s).1 ≠ 4 := hfour
      rw [if_neg (fun h => hfour h.1), if_neg hdone]
      rfl

/-- INTERNAL: a command has one status, the one that is returned.
SOURCE: fw_iptables.c:154-188 -/
theorem attempts_iptablesDoCommand (fwQuiet : Bool) (cmd : IptablesCommand) (s : σ)
    (rest : List (Command × BitVec 32)) :
    lastAttempts 0 (executions (transcript h (iptablesDoCommand fwQuiet cmd) s) ++ rest) =
      (.iptables cmd, (run h (iptablesDoCommand fwQuiet cmd) s).1) :: lastAttempts 0 rest := by
  have hretry := attempts_executeRetrying h cmd 4 le_rfl s rest
  simp only [iptablesDoCommand, transcript_bind, executions_append, run_bind]
  have hlog : ∀ rc s, executions (transcript h (if !fwQuiet && rc != 0 then
      Prog.question (Event.logStatus rc cmd) else pure () : Program Unit) s) = [] := by
    intro rc s
    split <;> rfl
  rw [hlog, List.nil_append]
  change lastAttempts 0 (executions _ ++ [] ++ rest) = _
  rw [List.append_nil]
  exact hretry

/-! ## Programs that report -/

/-- The commands of a run are commands of a kind, each with all its attempts. -/
structure RunsOnly (K : Command → Prop) (p : Program α) (s : σ) : Prop where
  closed : Closed (executions (transcript h p s))
  commands : ∀ x ∈ statuses h p s, K x.1

/-- What a program reports: its value is zero if and only if all its commands have ended with
status 0, and `A` holds. -/
structure Reports (K : Command → Prop) (A : Prop) (p : Program (BitVec 32)) (s : σ) : Prop
    extends RunsOnly h K p s where
  zero_iff : (run h p s).1 = 0 ↔ A ∧ ∀ x ∈ statuses h p s, x.2 = 0

/-- The same, but for the first execution of one command, which is not looked at. -/
structure ReportsBut (K : Command → Prop) (cmd : Command) (p : Program (BitVec 32)) (s : σ) : Prop
    extends RunsOnly h K p s where
  executed : ∃ rc, (cmd, rc) ∈ statuses h p s
  zero_iff : (run h p s).1 = 0 ↔
    ∀ x ∈ (statuses h p s).eraseP fun x => decide (x.1 = cmd), x.2 = 0

variable {h} {K : Command → Prop} {A : Prop}

theorem statuses_bind {p : Program α} {f : α → Program β} {s : σ}
    (hp : Closed (executions (transcript h p s))) :
    statuses h (p >>= f) s =
      statuses h p s ++ statuses h (f (run h p s).1) (run h p s).2 := by
  rw [statuses, transcript_bind, executions_append, hp]
  rfl

theorem statuses_map (p : Program α) (f : α → β) (s : σ) :
    statuses h (p >>= fun a => pure (f a)) s = statuses h p s := by
  rw [statuses, transcript_bind]
  exact congrArg (fun t => lastAttempts 0 (executions t)) (List.append_nil _)

theorem runsOnly_pure (a : α) (s : σ) : RunsOnly h K (pure a : Program α) s :=
  ⟨closed_nil, fun x hx => by cases hx⟩

theorem RunsOnly.mono {K' : Command → Prop} {p : Program α} {s : σ} (hp : RunsOnly h K p s)
    (hK : ∀ cmd, K cmd → K' cmd) : RunsOnly h K' p s :=
  ⟨hp.closed, fun x hx => hK _ (hp.commands x hx)⟩

theorem RunsOnly.bind {p : Program α} {f : α → Program β} {s : σ} (hp : RunsOnly h K p s)
    (hf : RunsOnly h K (f (run h p s).1) (run h p s).2) : RunsOnly h K (p >>= f) s := by
  refine ⟨?_, fun x hx => ?_⟩
  · rw [transcript_bind, executions_append]
    exact hp.closed.append hf.closed
  · rw [statuses_bind hp.closed] at hx
    rcases List.mem_append.mp hx with hx | hx
    · exact hp.commands x hx
    · exact hf.commands x hx

/-- A value. -/
theorem reports_pure (rc : BitVec 32) (s : σ) : Reports h K (rc = 0) (pure rc) s where
  toRunsOnly := runsOnly_pure rc s
  zero_iff := (and_iff_left fun x hx => by cases hx).symm

/-- A command. -/
theorem reports_iptablesDoCommand (fwQuiet : Bool) {cmd : IptablesCommand}
    (hK : K (.iptables cmd)) (s : σ) : Reports h K True (iptablesDoCommand fwQuiet cmd) s := by
  have hattempts := attempts_iptablesDoCommand h fwQuiet cmd s
  have hstatuses : statuses h (iptablesDoCommand fwQuiet cmd) s =
      [(.iptables cmd, (run h (iptablesDoCommand fwQuiet cmd) s).1)] := by
    have hone := hattempts []
    rwa [List.append_nil] at hone
  refine ⟨⟨fun rest => ?_, fun x hx => ?_⟩, by simp [hstatuses]⟩
  · rw [hattempts rest, ← List.singleton_append, ← hstatuses]
    rfl
  · rw [hstatuses, List.mem_singleton] at hx
    rw [hx]
    exact hK

theorem reports_execute_tc {cmd : TcCommand} (hK : K (.tc cmd)) (s : σ) :
    Reports h K True (execute (.tc cmd)) s := by
  have hstatuses : statuses h (execute (.tc cmd)) s =
      [(.tc cmd, (run h (execute (.tc cmd)) s).1)] := rfl
  refine ⟨⟨fun rest => rfl, fun x hx => ?_⟩, by simp [hstatuses]⟩
  rw [hstatuses, List.mem_singleton] at hx
  rw [hx]
  exact hK

theorem Reports.congr {A' : Prop} {p : Program (BitVec 32)} {s : σ} (hp : Reports h K A p s)
    (hA : A ↔ A') : Reports h K A' p s :=
  ⟨hp.toRunsOnly, hp.zero_iff.trans (and_congr_left' hA)⟩

/-- INTERNAL: one program after the other, when the second reports the value of the first. -/
theorem Reports.bind {B : Prop} {p : Program (BitVec 32)} {f : BitVec 32 → Program (BitVec 32)}
    {s : σ} (hp : Reports h K A p s) (hf : ∀ rc s, Reports h K (rc = 0 ∧ B) (f rc) s) :
    Reports h K (A ∧ B) (p >>= f) s := by
  have hnext := hf (run h p s).1 (run h p s).2
  refine ⟨hp.toRunsOnly.bind hnext.toRunsOnly, ?_⟩
  rw [run_bind, hnext.zero_iff, hp.zero_iff, statuses_bind hp.closed]
  simp only [List.mem_append, or_imp, forall_and]
  tauto

/-- A statement `rc |= …`. -/
theorem Reports.or {p : Program (BitVec 32)} {s : σ} (hp : Reports h K True p s)
    (rc : BitVec 32) : Reports h K (rc = 0) (do return rc ||| (← p)) s := by
  refine ⟨hp.toRunsOnly.bind (runsOnly_pure _ _), ?_⟩
  rw [run_bind, statuses_bind hp.closed]
  have hor : rc ||| (run h p s).1 = 0 ↔ rc = 0 ∧ (run h p s).1 = 0 := BitVec.or_eq_zero_iff
  refine hor.trans ?_
  rw [hp.zero_iff, true_and]
  exact and_congr_right' (by rw [show statuses h (pure _) _ = [] from rfl, List.append_nil])

/-- A stretch of such statements. -/
theorem reports_foldlM {ι : Type} {f : ι → Program (BitVec 32)} {l : List ι}
    (hf : ∀ i ∈ l, ∀ s, Reports h K True (f i) s) (rc : BitVec 32) (s : σ) :
    Reports h K (rc = 0) (l.foldlM (fun rc i => do return rc ||| (← f i)) rc) s := by
  induction l generalizing rc s with
  | nil => exact reports_pure rc s
  | cons i l ih =>
    obtain ⟨hi, hrest⟩ := List.forall_mem_cons.mp hf
    rw [List.foldlM_cons]
    exact (((hi s).or rc).bind fun rc s => (ih hrest rc s).congr (and_true _).symm.to_iff).congr
      (and_true _).to_iff

theorem reports_iptablesDoCommands (fwQuiet : Bool) {cmds : List IptablesCommand}
    (hK : ∀ cmd ∈ cmds, K (.iptables cmd)) (s : σ) :
    Reports h K True (iptablesDoCommands fwQuiet cmds) s := by
  have hfold := reports_foldlM (h := h) (f := iptablesDoCommand fwQuiet)
    (fun cmd hcmd s => reports_iptablesDoCommand fwQuiet (hK cmd hcmd) s) 0 s
  exact hfold.congr (by simp)

theorem reports_tcDoCommands {cmds : List TcCommand} (hK : ∀ cmd ∈ cmds, K (.tc cmd)) (s : σ) :
    Reports h K True (tcDoCommands cmds) s := by
  have hfold := reports_foldlM (h := h) (f := tcDoCommand)
    (fun cmd hcmd s => reports_execute_tc (hK cmd hcmd) s) 0 s
  exact hfold.congr (by simp)

/-- INTERNAL: one program after the other, of which the return values are ORed. -/
theorem Reports.both {p q : Program (BitVec 32)} {s : σ} (hp : Reports h K A p s)
    (hq : ∀ s, Reports h K True q s) :
    Reports h K A (do
      let rc ← p
      let rc' ← q
      pure (rc ||| rc')) s :=
  (hp.bind fun rc s => ((hq s).or rc).congr (and_true _).symm.to_iff).congr (and_true _).to_iff

/-- INTERNAL: a program that reports all behind one that does not. -/
theorem ReportsBut.bind {cmd : Command} {p : Program (BitVec 32)}
    {f : BitVec 32 → Program (BitVec 32)} {s : σ} (hp : ReportsBut h K cmd p s)
    (hf : ∀ rc s, Reports h K (rc = 0) (f rc) s) : ReportsBut h K cmd (p >>= f) s := by
  have hnext := hf (run h p s).1 (run h p s).2
  have hstatuses := statuses_bind (f := f) hp.closed
  obtain ⟨rc, hrc⟩ := hp.executed
  refine ⟨hp.toRunsOnly.bind hnext.toRunsOnly, ⟨rc, ?_⟩, ?_⟩
  · rw [hstatuses]
    exact List.mem_append_left _ hrc
  · rw [run_bind, hnext.zero_iff, hp.zero_iff, hstatuses,
      List.eraseP_append_left (a := (cmd, rc)) (by simp) _ hrc]
    simp only [List.mem_append, or_imp, forall_and]

/-- INTERNAL: a program that does not report all behind one that does; the values are ORed. -/
theorem Reports.bothBut {cmd : Command} {p q : Program (BitVec 32)} {s : σ}
    (hp : Reports h (fun c => K c ∧ c ≠ cmd) True p s) (hq : ∀ s, ReportsBut h K cmd q s) :
    ReportsBut h K cmd (do
      let rc ← p
      let rc' ← q
      pure (rc ||| rc')) s := by
  have hnext := hq (run h p s).2
  have hstatuses : statuses h (do
      let rc ← p
      let rc' ← q
      pure (rc ||| rc')) s = statuses h p s ++ statuses h q (run h p s).2 := by
    rw [statuses_bind hp.closed, statuses_bind hnext.closed]
    exact congrArg (statuses h p s ++ ·) (List.append_nil _)
  obtain ⟨rc, hrc⟩ := hnext.executed
  refine ⟨?_, ⟨rc, ?_⟩, ?_⟩
  · exact (hp.toRunsOnly.mono fun _ hc => hc.1).bind
      (hnext.toRunsOnly.bind (runsOnly_pure _ _))
  · rw [hstatuses]
    exact List.mem_append_right _ hrc
  · have hskip : ∀ x ∈ statuses h p s, ¬decide (x.1 = cmd) = true := fun x hx => by
      simpa using (hp.commands x hx).2
    rw [run_bind, run_bind, hstatuses, List.eraseP_append_right _ hskip]
    have hor : (run h p s).1 ||| (run h q (run h p s).2).1 = 0 ↔
        (run h p s).1 = 0 ∧ (run h q (run h p s).2).1 = 0 := BitVec.or_eq_zero_iff
    refine hor.trans ?_
    rw [hp.zero_iff, hnext.zero_iff, true_and]
    simp only [List.mem_append, or_imp, forall_and]

/-! ## The commands of a start-up -/

/-- The two capability probes: rules that are inserted and are no jump, and no return.
SOURCE: fw_iptables.c:121, 132 -/
def isProbe : Command → Bool
  | .iptables ⟨_, .insert _ _ ⟨_, .ext _⟩⟩ => true
  | .iptables ⟨_, .insert _ _ ⟨_, .verdict _⟩⟩ => true
  | _ => false

/-- The removal of a probe's rule.
SOURCE: fw_iptables.c:122, 133 -/
def isRemoval : Command → Bool
  | .iptables ⟨_, .deleteNum _ _⟩ => true
  | _ => false

/-- Neither. -/
def isSetup (cmd : Command) : Bool := !isProbe cmd && !isRemoval cmd

theorem isSetup_map {ι : Type} {f : ι → IptablesCommand} (hf : ∀ i, isSetup (.iptables (f i)) = true)
    (l : List ι) : ∀ cmd ∈ l.map f, isSetup (.iptables cmd) = true := by
  intro cmd hcmd
  obtain ⟨i, -, rfl⟩ := List.mem_map.mp hcmd
  exact hf i

theorem appendRuleset_setup (config : Config) (table : TableName) (ruleset : RulesetName)
    (chain : String) :
    ∀ cmd ∈ iptablesAppendRuleset config table ruleset chain, isSetup (.iptables cmd) = true :=
  isSetup_map (fun _ => rfl) _

theorem mangleCommands_setup (fw : Firewall) (config : Config) :
    ∀ cmd ∈ mangleCommands fw config, isSetup (.iptables cmd) = true := by
  refine List.forall_mem_append.mpr ⟨by simp [mangleChainCommands, isSetup, isProbe, isRemoval,
    gatewayJump], List.forall_mem_append.mpr ⟨isSetup_map (fun _ => rfl) _, ?_⟩⟩
  cases config.macmechanism with
  | block => exact isSetup_map (fun _ => rfl) _
  | allow => exact List.forall_mem_cons.mpr ⟨rfl, isSetup_map (fun _ => rfl) _⟩

theorem natCommands_setup (fw : Firewall) (config : Config) :
    ∀ cmd ∈ natCommands fw config, isSetup (.iptables cmd) = true := by
  refine List.forall_mem_append.mpr ⟨List.forall_mem_append.mpr ⟨?_, appendRuleset_setup _ _ _ _⟩, ?_⟩
  · simp [isSetup, isProbe, isRemoval, gatewayJump]
  · simp [isSetup, isProbe, isRemoval]

theorem markedCommands_setup (fw : Firewall) (config : Config) (chain : String) (mark : BitVec 32)
    (ruleset : RulesetName) (target : String) :
    ∀ cmd ∈ markedCommands fw config chain mark ruleset target,
      isSetup (.iptables cmd) = true := by
  unfold markedCommands
  split
  · simp [isSetup, isProbe, isRemoval]
  · refine List.forall_mem_append.mpr ⟨List.forall_mem_append.mpr
      ⟨?_, appendRuleset_setup _ _ _ _⟩, ?_⟩
    · simp [isSetup, isProbe, isRemoval]
    · simp [isSetup, isProbe, isRemoval]

theorem filterCommands_setup (fw : Firewall) (config : Config) :
    ∀ cmd ∈ filterCommands fw config, isSetup (.iptables cmd) = true := by
  have hrouter : ∀ cmd ∈ toRouterCommands fw config, isSetup (.iptables cmd) = true := by
    refine List.forall_mem_append.mpr ⟨List.forall_mem_append.mpr
      ⟨?_, markedCommands_setup _ _ _ _ _ _⟩, ?_⟩
    · simp [isSetup, isProbe, isRemoval, gatewayJump]
    · split
      · simp [isSetup, isProbe, isRemoval]
      · refine List.forall_mem_append.mpr ⟨appendRuleset_setup _ _ _ _, ?_⟩
        simp [isSetup, isProbe, isRemoval]
  have hinternet : ∀ cmd ∈ toInternetCommands fw config, isSetup (.iptables cmd) = true := by
    simp only [toInternetCommands, List.forall_mem_append]
    refine ⟨⟨⟨⟨⟨?_, ?_⟩, markedCommands_setup _ _ _ _ _ _⟩, markedCommands_setup _ _ _ _ _ _⟩, ?_⟩,
      ?_⟩
    · simp [isSetup, isProbe, isRemoval, gatewayJump]
    · split <;> simp [isSetup, isProbe, isRemoval]
    · split
      · simp [isSetup, isProbe, isRemoval]
      · exact appendRuleset_setup _ _ _ _
    · simp [isSetup, isProbe, isRemoval]
  refine List.forall_mem_append.mpr ⟨List.forall_mem_append.mpr ⟨?_, hrouter⟩, hinternet⟩
  simp [isSetup, isProbe, isRemoval]

/-! ## The stages -/

/-- The command that sets the download device up.
SOURCE: tc.c:196-197 -/
def downloadLink (config : Config) : Command := .tc (.linkSet (imqName config.downloadImq) true)

theorem reports_attachQdisc (dev : Text) (limit : ℤ) (s : σ) :
    Reports h (isSetup · = true) True (tcAttachQdisc dev limit) s :=
  reports_tcDoCommands (by simp [isSetup, isProbe, isRemoval, tcClassAdd]) s

/-- INTERNAL: the upload half reports all its commands.
SOURCE: tc.c:209-223 -/
theorem reports_tcInitUpload (fwQuiet : Bool) (config : Config) (rc : BitVec 32) (s : σ) :
    Reports h (isSetup · = true) (rc = 0) (tcInitUpload fwQuiet config rc) s := by
  unfold tcInitUpload
  split
  · refine ((reports_execute_tc (by rfl) s).bind fun ret s => ?_).congr (true_and _).to_iff
    split
    · next hret => exact (reports_pure (-1) s).congr (iff_of_false (by decide) fun h => hret h.1)
    · next hret =>
      rw [not_not] at hret
      simp only [hret, true_and]
      have himq := (@reports_iptablesDoCommand σ h (isSetup · = true) fwQuiet
        ⟨.mangle, .append CHAIN_OUTGOING ⟨[], .ext (.IMQ config.uploadImq)⟩⟩ rfl s).or rc
      have hqdisc : ∀ s, Reports h (isSetup · = true) True
          (tcAttachUploadQdisc (imqName config.uploadImq) config.uploadLimit) s :=
        reports_attachQdisc _ _
      have hboth := himq.both hqdisc
      simpa only [bind_assoc, pure_bind] using hboth
  · exact reports_pure rc s

/-- INTERNAL: the download half reports its commands, but for the one that sets the device up.
SOURCE: tc.c:195-208 -/
theorem reportsBut_tcInitDownload (fwQuiet : Bool) {config : Config}
    (hlimit : config.downloadLimit > 0) (s : σ) :
    ReportsBut h (isSetup · = true) (downloadLink config) (tcInitDownload fwQuiet config) s := by
  have hlink := @reports_execute_tc σ h (isSetup · = true)
    (.linkSet (imqName config.downloadImq) true) rfl s
  have hone : statuses h (execute (downloadLink config)) s =
      [(downloadLink config, (run h (execute (downloadLink config)) s).1)] := rfl
  -- what comes behind that command, whatever its status
  have hrest : ∀ (ret : BitVec 32) (s : σ), Reports h (isSetup · = true) True
      (if ret ≠ 0 then pure 0
      else do
        let rc₁ ← iptablesDoCommand fwQuiet
          ⟨.mangle, .append CHAIN_INCOMING ⟨[], .ext (.IMQ config.downloadImq)⟩⟩
        let rc₂ ← tcAttachDownloadQdisc (imqName config.downloadImq) config.downloadLimit
        pure (rc₁ ||| rc₂)) s := by
    intro ret s
    split
    · exact (reports_pure 0 s).congr (by simp)
    · exact (reports_iptablesDoCommand fwQuiet (by rfl) s).both fun s => reports_attachQdisc _ _ s
  unfold tcInitDownload
  rw [if_pos hlimit]
  have hstatuses := statuses_bind (f := fun ret : BitVec 32 => if ret ≠ 0 then pure 0
      else do
        let rc₁ ← iptablesDoCommand fwQuiet
          ⟨.mangle, .append CHAIN_INCOMING ⟨[], .ext (.IMQ config.downloadImq)⟩⟩
        let rc₂ ← tcAttachDownloadQdisc (imqName config.downloadImq) config.downloadLimit
        pure (rc₁ ||| rc₂)) hlink.closed
  have hnext := hrest (run h (execute (downloadLink config)) s).1
    (run h (execute (downloadLink config)) s).2
  refine ⟨hlink.toRunsOnly.bind hnext.toRunsOnly,
    ⟨(run h (execute (downloadLink config)) s).1, ?_⟩, ?_⟩
  · rw [hstatuses]
    exact List.mem_append_left _ (by rw [← downloadLink, hone]; exact List.mem_singleton_self _)
  · rw [run_bind, hstatuses, ← downloadLink, hone, List.singleton_append,
      List.eraseP_cons_of_pos (by simp), hnext.zero_iff, true_and]

/-- The status of the command that sets the download device up is not looked at. -/
def Unlooked (config : Config) : Prop := config.trafficControl = true ∧ config.downloadLimit > 0

instance (config : Config) : Decidable (Unlooked config) := inferInstanceAs (Decidable (_ ∧ _))

/-- INTERNAL: without a download limit all commands are looked at. -/
theorem reports_fwInitTables (fw : Firewall) {config : Config} (hlooked : ¬Unlooked config) (s : σ) :
    Reports h (isSetup · = true) True (iptablesFwInitTables fw config) s := by
  have htc : ∀ s, Reports h (isSetup · = true) True
      (if config.trafficControl then tcInitTc fw.fwQuiet config else pure 0) s := by
    intro s
    split
    · next hcontrol =>
      have hlimit : ¬config.downloadLimit > 0 := fun hlimit => hlooked ⟨hcontrol, hlimit⟩
      unfold tcInitTc tcInitDownload
      rw [if_neg hlimit, pure_bind]
      exact (reports_tcInitUpload fw.fwQuiet config 0 s).congr (by simp)
    · exact (reports_pure 0 s).congr (by simp)
  have hall := (((reports_iptablesDoCommands fw.fwQuiet
    (mangleCommands_setup fw config) s).both htc).both
    fun s => reports_iptablesDoCommands fw.fwQuiet (natCommands_setup fw config) s).both
    fun s => reports_iptablesDoCommands fw.fwQuiet (filterCommands_setup fw config) s
  simpa only [iptablesFwInitTables, bind_assoc, pure_bind] using hall

/-- INTERNAL: with a download limit all commands but one are looked at. -/
theorem reportsBut_fwInitTables (fw : Firewall) {config : Config} (hunlooked : Unlooked config)
    (s : σ) :
    ReportsBut h (isSetup · = true) (downloadLink config) (iptablesFwInitTables fw config) s := by
  have htc : ∀ s, ReportsBut h (isSetup · = true) (downloadLink config)
      (if config.trafficControl then tcInitTc fw.fwQuiet config else pure 0) s := by
    intro s
    rw [if_pos hunlooked.1]
    exact (reportsBut_tcInitDownload fw.fwQuiet hunlooked.2 s).bind fun rc s =>
      reports_tcInitUpload fw.fwQuiet config rc s
  have hmangle : Reports h (fun c => isSetup c = true ∧ c ≠ downloadLink config) True
      (iptablesDoCommands fw.fwQuiet (mangleCommands fw config)) s :=
    reports_iptablesDoCommands fw.fwQuiet
      (fun cmd hcmd => ⟨mangleCommands_setup fw config cmd hcmd, by simp [downloadLink]⟩) s
  have hnat := (hmangle.bothBut htc).bind fun rc s =>
    (reports_iptablesDoCommands fw.fwQuiet (natCommands_setup fw config) s).or rc
  have hall := hnat.bind fun rc s =>
    (reports_iptablesDoCommands fw.fwQuiet (filterCommands_setup fw config) s).or rc
  simpa only [iptablesFwInitTables, bind_assoc, pure_bind] using hall

/-! ## The return value -/

/-- The statuses that are looked at. -/
def lookedAt (config : Config) (l : List (Command × BitVec 32)) : List (Command × BitVec 32) :=
  let l := l.filter fun x => isSetup x.1
  if Unlooked config then l.eraseP fun x => decide (x.1 = downloadLink config) else l

/-- INTERNAL: what the marks ask of the machine are probes and the removal of their rules.
SOURCE: fw_iptables.c:115-150 -/
theorem runsOnly_fwInitMarks (config : Config) (fw : Firewall) (s : σ) :
    RunsOnly h (isSetup · = false) (iptablesFwInitMarks config fw) s := by
  have hor : ∀ (fw : Firewall) (s : σ), RunsOnly h (isSetup · = false) (checkOrMark fw) s := by
    intro fw s
    refine (reports_iptablesDoCommand fw.fwQuiet (by rfl) s).toRunsOnly.bind ?_
    split
    · exact (reports_iptablesDoCommand fw.fwQuiet (by rfl) _).toRunsOnly.bind (runsOnly_pure _ _)
    · exact runsOnly_pure _ _
  have hmask : ∀ (fw : Firewall) (s : σ), RunsOnly h (isSetup · = false) (checkMasking fw) s := by
    intro fw s
    refine (reports_iptablesDoCommand fw.fwQuiet (by rfl) s).toRunsOnly.bind ?_
    split
    · exact (reports_iptablesDoCommand fw.fwQuiet (by rfl) _).toRunsOnly.bind (runsOnly_pure _ _)
    · exact runsOnly_pure _ _
  have hmasking : ∀ (fw : Firewall) (s : σ),
      RunsOnly h (isSetup · = false) (iptablesCheckMarkMasking fw) s := by
    intro fw s
    unfold iptablesCheckMarkMasking
    refine (hor _ s).bind ?_
    exact (hmask _ _).bind (runsOnly_pure _ _)
  unfold iptablesFwInitMarks
  refine (hmasking _ s).bind ?_
  exact runsOnly_pure _ _

instance (config : Config) : Decidable (MarksAccepted config) := inferInstanceAs (Decidable (_ ∧ _))

/-- INTERNAL: the marks are reported as they are, whatever the probes say.
SOURCE: fw_iptables.c:77-150 -/
theorem fwInitMarks_zero_iff (config : Config) (fw : Firewall) (s : σ) :
    (run h (iptablesFwInitMarks config fw) s).1.1 = 0 ↔ MarksAccepted config := by
  have hmasking : ∀ (fw : Firewall) (s : σ),
      (run h (iptablesCheckMarkMasking fw) s).1.1 = 0 := fun fw s => by
    simp only [iptablesCheckMarkMasking, run_bind, pure_eq, run_done]
  unfold iptablesFwInitMarks
  simp only [run_bind, pure_eq, run_done, hmasking]
  unfold iptablesInitMarks MarksAccepted
  dsimp only
  split
  · next hsame =>
    have hvalue : ¬((-1 : BitVec 32) ||| 0 = 0) := by decide
    refine iff_of_false hvalue ?_
    tauto
  · next hdistinct =>
    split
    · next hzero =>
      have hvalue : ¬((-1 : BitVec 32) ||| 0 = 0) := by decide
      refine iff_of_false hvalue ?_
      tauto
    · next hnonzero =>
      have hvalue : (0 : BitVec 32) ||| 0 = 0 := by decide
      refine iff_of_true hvalue ?_
      tauto

/-- INTERNAL: start-up answers 0 if and only if the marks are accepted and all the statuses
that are looked at are 0.
SOURCE: fw_iptables.c:314-605, tc.c:175-228 -/
theorem fwInit_zero_iff (config : Config) (fw : Firewall) (s : σ) :
    (run h (iptablesFwInit config fw) s).1.1 = 0 ↔
      MarksAccepted config ∧
        ∀ x ∈ lookedAt config (statuses h (iptablesFwInit config fw) s), x.2 = 0 := by
  have hmarks := runsOnly_fwInitMarks (h := h) config fw s
  set marks := run h (iptablesFwInitMarks config fw) s with hrun
  have hsplit : statuses h (iptablesFwInit config fw) s =
      statuses h (iptablesFwInitMarks config fw) s ++
        statuses h (iptablesFwInitTables marks.1.2 config) marks.2 := by
    unfold iptablesFwInit
    rw [statuses_bind hmarks.closed, statuses_map]
  have hvalue : (run h (iptablesFwInit config fw) s).1.1 = 0 ↔
      marks.1.1 = 0 ∧ (run h (iptablesFwInitTables marks.1.2 config) marks.2).1 = 0 := by
    unfold iptablesFwInit
    simp only [run_bind, pure_eq, run_done, ← hrun]
    exact BitVec.or_eq_zero_iff
  have hfilter : (statuses h (iptablesFwInitMarks config fw) s).filter (fun x => isSetup x.1) =
      [] :=
    List.filter_eq_nil_iff.mpr fun x hx => by simp [hmarks.commands x hx]
  have hkeep (p : RunsOnly h (isSetup · = true)
      (iptablesFwInitTables marks.1.2 config) marks.2) :
      (statuses h (iptablesFwInitTables marks.1.2 config) marks.2).filter (fun x => isSetup x.1) =
        statuses h (iptablesFwInitTables marks.1.2 config) marks.2 :=
    List.filter_eq_self.mpr p.commands
  rw [hvalue, hrun, fwInitMarks_zero_iff, hsplit, lookedAt, List.filter_append, hfilter,
    List.nil_append, ← hrun]
  refine and_congr_right' ?_
  split
  · next hunlooked =>
    have htables := reportsBut_fwInitTables (h := h) marks.1.2 hunlooked marks.2
    rw [hkeep htables.toRunsOnly, htables.zero_iff]
  · next hlooked =>
    have htables := reports_fwInitTables (h := h) marks.1.2 hlooked marks.2
    rw [hkeep htables.toRunsOnly, htables.zero_iff, true_and]

/-! ## Every failure -/

/-- The commands that count, with their statuses: all but the capability probes.  The removal of
a probe's rule may be taken for a part of the probe. -/
def counted (removals : Bool) (l : List (Command × BitVec 32)) : List (Command × BitVec 32) :=
  l.filter fun x => !isProbe x.1 && (removals || !isRemoval x.1)

/-- The statuses among them that are not looked at: those of the removals, and that of the
command that sets the download device up. -/
def unlooked (removals : Bool) (config : Config) (l : List (Command × BitVec 32)) :
    List (Command × BitVec 32) :=
  (l.filter fun x => removals && isRemoval x.1) ++
    if Unlooked config then (l.find? fun x => decide (x.1 = downloadLink config)).toList else []

/-- What is erased from a list is what is found in it. -/
theorem mem_iff_eraseP_or_find {ι : Type} (p : ι → Bool) (l : List ι) (x : ι) :
    x ∈ l ↔ x ∈ l.eraseP p ∨ l.find? p = some x := by
  induction l with
  | nil => simp
  | cons a l ih =>
    by_cases ha : p a = true
    · rw [List.eraseP_cons_of_pos ha, List.find?_cons_of_pos ha, List.mem_cons, or_comm,
        Option.some.injEq, eq_comm]
    · rw [List.eraseP_cons_of_neg ha, List.find?_cons_of_neg ha, List.mem_cons, List.mem_cons, ih,
        or_assoc]

/-- INTERNAL: a command that counts is looked at or not. -/
theorem mem_counted_iff (removals : Bool) (config : Config) (l : List (Command × BitVec 32))
    (x : Command × BitVec 32) :
    x ∈ counted removals l ↔ x ∈ lookedAt config l ∨ x ∈ unlooked removals config l := by
  have hkinds : ∀ cmd, isRemoval cmd = true → isProbe cmd = false := by
    intro cmd
    unfold isRemoval
    split
    · exact fun _ => rfl
    · exact fun h => by cases h
  have hcounted : x ∈ counted removals l ↔
      x ∈ l.filter (fun x => isSetup x.1) ∨ x ∈ l.filter fun x => removals && isRemoval x.1 := by
    simp only [counted, isSetup, List.mem_filter]
    cases hremoval : isRemoval x.1 with
    | false => cases removals <;> simp
    | true => cases removals <;> simp [hkinds x.1 hremoval]
  have hfind : (l.filter fun x => isSetup x.1).find? (fun x => decide (x.1 = downloadLink config)) =
      l.find? fun x => decide (x.1 = downloadLink config) := by
    rw [List.find?_filter]
    congr 1
    funext y
    by_cases hy : y.1 = downloadLink config
    · simp [hy, downloadLink, isSetup, isProbe, isRemoval]
    · simp [hy]
  rw [hcounted, lookedAt, unlooked]
  split
  · rw [mem_iff_eraseP_or_find (fun x => decide (x.1 = downloadLink config)) (l.filter _) x, hfind,
      List.mem_append, Option.mem_toList]
    tauto
  · rw [List.append_nil]

/-- **Which start-ups report every failure**: those of a configuration with accepted marks in which
a command that is not looked at fails only together with one that is.
SOURCE: fw_iptables.c:314-605, tc.c:175-228 -/
theorem startup_reports_iff (removals : Bool) (config : Config) (fw : Firewall) (s : σ) :
    ((run h (iptablesFwInit config fw) s).1.1 = 0 ↔
        ∀ x ∈ counted removals (statuses h (iptablesFwInit config fw) s), x.2 = 0) ↔
      if MarksAccepted config then
        (∀ x ∈ unlooked removals config (statuses h (iptablesFwInit config fw) s), x.2 ≠ 0 →
          ∃ y ∈ lookedAt config (statuses h (iptablesFwInit config fw) s), y.2 ≠ 0)
      else ∃ x ∈ counted removals (statuses h (iptablesFwInit config fw) s), x.2 ≠ 0 := by
  rw [fwInit_zero_iff]
  have hcounted : (∀ x ∈ counted removals (statuses h (iptablesFwInit config fw) s), x.2 = 0) ↔
      (∀ x ∈ lookedAt config (statuses h (iptablesFwInit config fw) s), x.2 = 0) ∧
        ∀ x ∈ unlooked removals config (statuses h (iptablesFwInit config fw) s), x.2 = 0 := by
    simp only [mem_counted_iff removals config, or_imp, forall_and]
  split
  · next haccepted =>
    rw [hcounted]
    constructor
    · intro hreports x hx hfailed
      by_contra hnone
      have hnone : ∀ y ∈ lookedAt config (statuses h (iptablesFwInit config fw) s), y.2 = 0 :=
        fun y hy => not_not.mp fun hne => hnone ⟨y, hy, hne⟩
      exact hfailed ((hreports.mp ⟨haccepted, hnone⟩).2 x hx)
    · intro hcond
      refine ⟨fun ⟨_, hlooked⟩ => ⟨hlooked, fun x hx => ?_⟩, fun hall => ⟨haccepted, hall.1⟩⟩
      by_contra hfailed
      obtain ⟨y, hy, hne⟩ := hcond x hx hfailed
      exact hne (hlooked y hy)
  · next hrefused =>
    rw [iff_false_left fun hstart : MarksAccepted config ∧ _ => hrefused hstart.1]
    simp only [not_forall, exists_prop]

/-- A router on which every command succeeds but one. -/
def failing (failed : Command) : (e : Event) → Unit → e.Answer × Unit
  | .execute cmd, s => (if cmd = failed then 1 else 0, s)
  | .logStatus _ _, s => ((), s)
  | .list _ _, s => ([], s)

/-- A configuration with a download limit. -/
def limitedDownload : Config := { trafficControl := true, downloadLimit := 512 }

/-- Start-up answers 0 although the device of the download limit is down. -/
theorem startup_hides_failure :
    ¬∀ (config : Config) (fw : Firewall) (h : (e : Event) → Unit → e.Answer × Unit),
      (run h (iptablesFwInit config fw) ()).1.1 = 0 ↔
        ∀ x ∈ counted false (statuses h (iptablesFwInit config fw) ()), x.2 = 0 := by
  intro hreports
  have hstarted : (run (failing (downloadLink limitedDownload))
      (iptablesFwInit limitedDownload {}) ()).1.1 = 0 := by decide +kernel
  have hfailed : (downloadLink limitedDownload, 1) ∈ counted false
      (statuses (failing (downloadLink limitedDownload)) (iptablesFwInit limitedDownload {}) ()) := by
    decide +kernel
  exact absurd ((hreports _ _ _).mp hstarted _ hfailed) (by decide)

/-! ## The marks of a file -/

theorem marksAccepted_iff (c : FileConfig) :
    MarksAccepted c.toConfig ↔
      (∀ m, c.mark m ≠ 0) ∧ ∀ m m', m ≠ m' → c.mark m ≠ c.mark m' := by
  unfold MarksAccepted FileConfig.toConfig
  dsimp only
  constructor
  · rintro ⟨hbt, hta, hab, hb, ht, ha⟩
    refine ⟨fun m => by cases m <;> assumption, fun m m' hne => ?_⟩
    cases m <;> cases m' <;> first | exact absurd rfl hne | assumption | exact Ne.symm ‹_›
  · rintro ⟨hzero, hne⟩
    exact ⟨hne _ _ (by decide), hne _ _ (by decide), hne _ _ (by decide), hzero _, hzero _, hzero _⟩

/-- INTERNAL: a mark that is like another one, or zero, is refused.
SOURCE: conf.c:1282-1312 -/
theorem parseFwMark_marksAccepted {m : MarkName} {arg : Text} {c c' : FileConfig}
    (h : parseFwMark m arg c = some c') (hc : MarksAccepted c.toConfig) :
    MarksAccepted c'.toConfig := by
  obtain ⟨v, -, h⟩ := Option.bind_eq_some_iff.mp h
  dsimp only at h
  split at h
  · cases h
  · next hfree =>
    cases h
    rw [marksAccepted_iff] at hc ⊢
    obtain ⟨hzero, hne⟩ := hc
    simp only [Bool.or_eq_true, decide_eq_true_eq, List.any_eq_true, not_or, not_exists,
      not_and] at hfree
    obtain ⟨hv, hothers⟩ := hfree
    have hother : ∀ o, o ≠ m → c.mark o ≠ v := by
      intro o ho
      have hnot := hothers o (by cases o <;> simpa using ho)
      rwa [Function.update_of_ne ho] at hnot
    constructor
    · intro o
      dsimp only
      by_cases ho : o = m
      · rw [ho, Function.update_self]
        exact hv
      · rw [Function.update_of_ne ho]
        exact hzero o
    · intro o o' hdiff
      dsimp only
      by_cases ho : o = m
      · subst ho
        rw [Function.update_self, Function.update_of_ne hdiff.symm]
        exact (hother o' hdiff.symm).symm
      · by_cases ho' : o' = m
        · subst ho'
          rw [Function.update_self, Function.update_of_ne ho]
          exact hother o ho
        · rw [Function.update_of_ne ho, Function.update_of_ne ho']
          exact hne o o' hdiff

/-- INTERNAL: **the marks of a file that is accepted** are ones that start-up accepts.
SOURCE: conf.c:1282-1312, 1025-1354 -/
theorem configRead_marksAccepted {file : Text} {beyond : ℕ → Text} {c c' : FileConfig}
    (h : configRead file beyond c = some c') (hc : MarksAccepted c.toConfig) :
    MarksAccepted c'.toConfig := by
  have hcongr : ∀ {d d' : FileConfig}, d'.mark = d.mark →
      MarksAccepted d.toConfig → MarksAccepted d'.toConfig := by
    intro d d' hmark hd
    rw [marksAccepted_iff] at hd ⊢
    rwa [hmark]
  rw [configRead_eq] at h
  refine readLines_keeps (P := fun c => MarksAccepted c.toConfig) ?_ ?_ h hc
  · intro name arg c hc
    refine hcongr ?_ hc
    unfold addFirewallRule
    split <;> rfl
  · intro op arg after d d' hop hd
    by_cases hmark : ∃ m, op = .fwMark m
    · obtain ⟨m, rfl⟩ := hmark
      exact parseFwMark_marksAccepted hop hd
    · -- any other option writes a part that is no mark
      refine hcongr (funext fun m => ?_) hd
      refine (footprint_apply op arg after).frame d d' hop (.mark m) ?_
      cases op <;> simp_all [optionWrites]

end WifiCat.Analysis
