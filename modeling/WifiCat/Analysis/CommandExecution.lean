import WifiCat.Model.Tc

/-!
# What running a command does to the machine

`iptablesDoCommand_cases` is the specification every proof about commands uses: a command
exits 0 and has its effect, or exits with another status, changes no table and is logged
unless logging is off.  From it: a stretch of commands on a machine that logged nothing
has all its effects, in order (`applyAll_of_clean`), and a program that only names the
chains of a set leaves every other chain alone (`rules_of_touches`).
-/

set_option autoImplicit false

namespace WifiCat.Analysis

open CommandProgram Netfilter

variable {α β : Type} {out : Outside}

/-- A command with its rule as `iptables` reads it. -/
abbrev readCommand : IptablesCommand → IptablesCommand := Cmd.mapRule readRule

/-! ## One command -/

theorem iptables_eq_some {cmd : IptablesCommand} {ts us : Tables}
    (h : iptables cmd ts = some us) :
    cmd.op.rule.all readable = true ∧ (readCommand cmd).apply ts = some us := by
  unfold iptables at h
  split at h
  · next hr => exact ⟨hr, h⟩
  · cases h

/-- INTERNAL: one execution of an `iptables` command. -/
theorem run_execute_cases (out : Outside) (cmd : IptablesCommand) (h : Host) :
    ((runOn out (execute (.iptables cmd)) h).1 = 0 ∧
      iptables cmd h.tables = some (runOn out (execute (.iptables cmd)) h).2.tables ∨
     (runOn out (execute (.iptables cmd)) h).1 ≠ 0 ∧
      (runOn out (execute (.iptables cmd)) h).2.tables = h.tables) ∧
    (runOn out (execute (.iptables cmd)) h).2.complaints = h.complaints := by
  simp only [runOn, execute, Prog.run_question, Host.answer]
  split
  · next hrc => exact ⟨Or.inr ⟨hrc, rfl⟩, rfl⟩
  · cases hts : iptables cmd h.tables with
    | some ts => exact ⟨Or.inl ⟨rfl, rfl⟩, rfl⟩
    | none => exact ⟨Or.inr ⟨(by decide : (1 : BitVec 32) ≠ 0), rfl⟩, rfl⟩

/-- INTERNAL: retrying a command is running it once, as far as the tables go: an attempt
that is repeated has changed nothing.
SOURCE: fw_iptables.c:172-180 -/
theorem run_executeRetrying_cases (out : Outside) (cmd : IptablesCommand) (n : ℕ) (h : Host) :
    ((runOn out (executeRetrying cmd n) h).1 = 0 ∧
      iptables cmd h.tables = some (runOn out (executeRetrying cmd n) h).2.tables ∨
     (runOn out (executeRetrying cmd n) h).1 ≠ 0 ∧
      (runOn out (executeRetrying cmd n) h).2.tables = h.tables) ∧
    (runOn out (executeRetrying cmd n) h).2.complaints = h.complaints := by
  induction n generalizing h with
  | zero => exact run_execute_cases out cmd h
  | succ n ih =>
    obtain ⟨hcases, hlog⟩ := run_execute_cases out cmd h
    simp only [runOn, executeRetrying, Prog.run_bind] at hcases hlog ⊢
    split
    · next hfour =>
      rcases hcases with ⟨hzero, -⟩ | ⟨-, htables⟩
      · rw [hzero] at hfour
        exact absurd hfour (by decide)
      · have ih' := ih (runOn out (execute (.iptables cmd)) h).2
        simp only [runOn, htables, hlog] at ih'
        exact ih'
    · exact ⟨hcases, hlog⟩

/-- INTERNAL: **what `iptables_do_command` does**.
SOURCE: fw_iptables.c:154-188 -/
theorem iptablesDoCommand_cases (out : Outside) (fwQuiet : Bool) (cmd : IptablesCommand)
    (h : Host) :
    ((runOn out (iptablesDoCommand fwQuiet cmd) h).1 = 0 ∧
      iptables cmd h.tables = some (runOn out (iptablesDoCommand fwQuiet cmd) h).2.tables ∧
      (runOn out (iptablesDoCommand fwQuiet cmd) h).2.complaints = h.complaints) ∨
    ((runOn out (iptablesDoCommand fwQuiet cmd) h).1 ≠ 0 ∧
      (runOn out (iptablesDoCommand fwQuiet cmd) h).2.tables = h.tables ∧
      (fwQuiet = false → ¬(runOn out (iptablesDoCommand fwQuiet cmd) h).2.clean)) := by
  obtain ⟨hcases, hlog⟩ := run_executeRetrying_cases out cmd 4 h
  simp only [runOn, iptablesDoCommand, Prog.run_bind] at hcases hlog ⊢
  rcases hcases with ⟨hzero, htables⟩ | ⟨hrc, htables⟩
  · refine Or.inl ?_
    simp only [hzero, bne_self_eq_false, Bool.and_false, Bool.false_eq_true, if_false]
    exact ⟨rfl, htables, hlog⟩
  · refine Or.inr ?_
    cases fwQuiet with
    | true =>
      simp only [Bool.not_true, Bool.false_and, Bool.false_eq_true, if_false]
      exact ⟨hrc, htables, fun hq => by cases hq⟩
    | false =>
      have hbne : (Prog.run (Host.answer out) (executeRetrying cmd 4) h).1 != 0 := by
        simpa using hrc
      simp only [Bool.not_false, Bool.true_and, hbne, if_true]
      refine ⟨hrc, htables, fun _ => ?_⟩
      simp [Prog.run_question, Host.answer, Host.clean]

/-! ## Complaints -/

/-- INTERNAL: an error line is never taken back. -/
theorem clean_of_run {p : Program α} {h : Host} (hclean : (runOn out p h).2.clean) :
    h.clean := by
  by_contra hnot
  have hkeep : ∀ (e : Event) (s : Host), True → ¬s.clean → ¬(Host.answer out e s).2.clean := by
    intro e s _ hs
    cases e with
    | execute cmd =>
      simp only [Host.answer]
      split
      · exact hs
      · cases cmd with
        | tc c => exact hs
        | iptables c =>
          dsimp only
          split <;> exact hs
    | logStatus rc cmd => simp [Host.answer, Host.clean]
    | list table chain => exact hs
  exact (Prog.run_invariant hkeep (Prog.always_trivial p) hnot).2 hclean

/-- INTERNAL: a noisy command on a machine that logged nothing succeeded. -/
theorem iptables_of_clean {cmd : IptablesCommand} {h : Host}
    (hclean : (runOn out (iptablesDoCommand false cmd) h).2.clean) :
    (runOn out (iptablesDoCommand false cmd) h).1 = 0 ∧
      iptables cmd h.tables = some (runOn out (iptablesDoCommand false cmd) h).2.tables := by
  rcases iptablesDoCommand_cases out false cmd h with ⟨hrc, htables, -⟩ | ⟨-, -, hlog⟩
  · exact ⟨hrc, htables⟩
  · exact absurd hclean (hlog rfl)

/-- INTERNAL: **a stretch of commands on a machine that logged nothing** has all its
effects, in order, and every rule in it could be read. -/
theorem applyAll_of_clean {cmds : List IptablesCommand} {h : Host}
    (hclean : (runOn out (iptablesDoCommands false cmds) h).2.clean) :
    Cmd.applyAll (cmds.map readCommand) h.tables =
        some (runOn out (iptablesDoCommands false cmds) h).2.tables ∧
      ∀ cmd ∈ cmds, cmd.op.rule.all readable = true := by
  unfold iptablesDoCommands at hclean ⊢
  generalize (0 : BitVec 32) = rc at hclean ⊢
  induction cmds generalizing rc h with
  | nil => exact ⟨rfl, by simp⟩
  | cons cmd cmds ih =>
    simp only [runOn, List.foldlM_cons, Prog.run_bind, Prog.pure_eq, Prog.run_done]
      at hclean ih ⊢
    have hcmd := iptables_of_clean (clean_of_run hclean)
    obtain ⟨hreadable, happly⟩ := iptables_eq_some hcmd.2
    obtain ⟨hrest, hall⟩ := ih _ hclean
    refine ⟨?_, ?_⟩
    · simp only [Cmd.applyAll, List.map_cons, List.foldlM_cons, happly] at hrest ⊢
      exact hrest
    · intro c hc
      rcases List.mem_cons.mp hc with rfl | hc
      · exact hreadable
      · exact hall c hc

/-! ## The chains a program names -/

/-- A chain of a table. -/
abbrev Place := TableName × String

/-- The chain a command names, if it is a command on a chain. -/
def place : Command → Option Place
  | .iptables cmd => some (cmd.table, cmd.op.chain)
  | .tc _ => none

/-- Whatever happens, every command of the program satisfies `K` and its end value `P`. -/
def Runs (K : Command → Prop) (P : α → Prop) (p : Program α) : Prop :=
  Prog.Always (fun e => ∀ cmd, e = Event.execute cmd → K cmd) P p

/-- The program names no chain outside the set. -/
def Touches (S : Set Place) (p : Program α) : Prop :=
  Runs (fun cmd => ∀ x, place cmd = some x → x ∈ S) (fun _ => True) p

section Runs

variable {K : Command → Prop} {P : α → Prop} {P' : β → Prop}

theorem runs_execute {cmd : Command} (h : K cmd) : Runs K (fun _ => True) (execute cmd) := by
  refine ⟨?_, fun _ => trivial⟩
  rintro _ ⟨⟩
  exact h

theorem Runs.bind {p : Program α} {f : α → Program β} (hp : Runs K P p)
    (hf : ∀ a, P a → Runs K P' (f a)) : Runs K P' (p >>= f) :=
  Prog.always_bind hp hf

theorem Runs.mono {K' : Command → Prop} {Q : α → Prop} {p : Program α} (hp : Runs K P p)
    (hK : ∀ cmd, K cmd → K' cmd) (hP : ∀ a, P a → Q a) : Runs K' Q p :=
  Prog.always_mono hp (fun _ he cmd hcmd => hK cmd (he cmd hcmd)) hP

theorem Runs.result {p : Program α} (hp : Runs K P p) (out : Outside) (h : Host) : P (runOn out p h).1 :=
  (Prog.run_invariant (I := fun _ => True) (fun _ _ _ _ => trivial) hp trivial).1

theorem runs_iptablesDoCommand {fwQuiet : Bool} {cmd : IptablesCommand}
    (h : K (.iptables cmd)) : Runs K (fun _ => True) (iptablesDoCommand fwQuiet cmd) := by
  have hretry : ∀ n, Runs K (fun _ => True) (executeRetrying cmd n) := by
    intro n
    induction n with
    | zero => exact runs_execute h
    | succ n ih =>
      refine (runs_execute h).bind fun rc _ => ?_
      split
      · exact ih
      · trivial
  refine (hretry 4).bind fun rc _ => ?_
  have hlog : Runs K (fun _ => True) (if !fwQuiet && rc != 0 then
      Prog.question (Event.logStatus rc cmd) else pure () : Program Unit) := by
    split
    · refine ⟨?_, fun _ => trivial⟩
      rintro _ ⟨⟩
    · trivial
  exact hlog.bind fun _ _ => trivial

theorem runs_iptablesDoCommands {fwQuiet : Bool} {cmds : List IptablesCommand}
    (h : ∀ cmd ∈ cmds, K (.iptables cmd)) :
    Runs K (fun _ => True) (iptablesDoCommands fwQuiet cmds) := by
  refine Prog.always_foldlM trivial fun rc _ cmd hcmd => ?_
  exact (runs_iptablesDoCommand (h cmd hcmd)).bind fun _ _ => trivial

theorem runs_tcDoCommands {cmds : List TcCommand} (h : ∀ cmd, K (.tc cmd)) :
    Runs K (fun _ => True) (tcDoCommands cmds) := by
  refine Prog.always_foldlM trivial fun rc _ cmd _ => ?_
  exact (runs_execute (h cmd)).bind fun _ _ => trivial

/-- INTERNAL: the commands of `tc_init_tc` on the firewall.
SOURCE: tc.c:195-223 -/
theorem runs_tcInitTc {fwQuiet : Bool} {config : Config} (htc : ∀ cmd, K (.tc cmd))
    (hin : K (.iptables
      ⟨.mangle, .append CHAIN_INCOMING ⟨[], .ext (.IMQ config.downloadImq)⟩⟩))
    (hout : K (.iptables
      ⟨.mangle, .append CHAIN_OUTGOING ⟨[], .ext (.IMQ config.uploadImq)⟩⟩)) :
    Runs K (fun _ => True) (tcInitTc fwQuiet config) := by
  have hdown : Runs K (fun _ => True) (tcInitDownload fwQuiet config) := by
    unfold tcInitDownload
    split
    · refine (runs_execute (htc _)).bind fun ret _ => ?_
      split
      · trivial
      · refine (runs_iptablesDoCommand hin).bind fun _ _ => ?_
        exact (runs_tcDoCommands htc).bind fun _ _ => trivial
    · trivial
  refine hdown.bind fun rc _ => ?_
  unfold tcInitUpload
  split
  · refine (runs_execute (htc _)).bind fun ret _ => ?_
    split
    · trivial
    · refine (runs_iptablesDoCommand hout).bind fun _ _ => ?_
      exact (runs_tcDoCommands htc).bind fun _ _ => trivial
  · trivial

end Runs

/-- INTERNAL: the tables after any program are those after the commands of it that
succeeded. -/
theorem exists_succeeded (out : Outside) {K : Command → Prop} {P : α → Prop} {p : Program α} (hp : Runs K P p)
    (h : Host) :
    ∃ cmds : List IptablesCommand, (∀ cmd ∈ cmds, K (.iptables cmd)) ∧
      Cmd.applyAll (cmds.map readCommand) h.tables = some (runOn out p h).2.tables := by
  have hstep : ∀ (e : Event) (s : Host), (∀ cmd, e = Event.execute cmd → K cmd) →
      (∃ cmds : List IptablesCommand, (∀ cmd ∈ cmds, K (.iptables cmd)) ∧
        Cmd.applyAll (cmds.map readCommand) h.tables = some s.tables) →
      ∃ cmds : List IptablesCommand, (∀ cmd ∈ cmds, K (.iptables cmd)) ∧
        Cmd.applyAll (cmds.map readCommand) h.tables = some (Host.answer out e s).2.tables := by
    intro e s hK hs
    cases e with
    | execute cmd =>
      simp only [Host.answer]
      split
      · exact hs
      · cases cmd with
        | tc c => exact hs
        | iptables c =>
          dsimp only
          split
          · next ts hts =>
            obtain ⟨cmds, hcmds, happly⟩ := hs
            refine ⟨cmds ++ [c], ?_, ?_⟩
            · intro d hd
              rcases List.mem_append.mp hd with hd | hd
              · exact hcmds d hd
              · rw [List.mem_singleton.mp hd]
                exact hK _ rfl
            · have hc := (iptables_eq_some hts).2
              simp only [Cmd.applyAll, List.map_append, List.foldlM_append] at happly ⊢
              rw [happly]
              simp only [Option.bind_eq_bind, Option.bind_some, List.map_cons, List.map_nil,
                List.foldlM_cons, hc, List.foldlM_nil]
              rfl
          · exact hs
    | logStatus rc cmd => exact hs
    | list table chain => exact hs
  exact (Prog.run_invariant hstep hp ⟨[], by simp, rfl⟩).2

/-- INTERNAL: a command that succeeds has its effect on the chain it names only. -/
theorem rules_of_iptables {cmd : IptablesCommand} {ts us : Tables}
    (h : iptables cmd ts = some us) (k : TableName) (c : String) :
    (us k).rules c =
      if cmd.table = k ∧ cmd.op.chain = c then (cmd.op.mapRule readRule).effect ((ts k).rules c)
      else (ts k).rules c := by
  rw [Cmd.rules_of_apply (iptables_eq_some h).2]
  simp [Cmd.onChain, Cmd.mapRule]

/-- INTERNAL: **frame**: a program leaves the chains it does not name alone. -/
theorem rules_of_touches {S : Set Place} {p : Program α} (hp : Touches S p) {k : TableName}
    {c : String} (hkc : (k, c) ∉ S) (h : Host) :
    ((runOn out p h).2.tables k).rules c = (h.tables k).rules c := by
  obtain ⟨cmds, hcmds, happly⟩ := exists_succeeded out hp h
  rw [Cmd.rules_of_applyAll happly]
  refine Cmd.replay_of_forall_not ?_ _
  intro cmd hcmd
  obtain ⟨d, hd, rfl⟩ := List.mem_map.mp hcmd
  have hmem := hcmds d hd _ rfl
  refine Cmd.onChain_eq_false.mpr ?_
  rintro ⟨htable, hchain⟩
  simp only [readCommand, Cmd.mapRule, Op.chain_mapRule] at htable hchain
  rw [htable, hchain] at hmem
  exact hkc hmem

end WifiCat.Analysis
