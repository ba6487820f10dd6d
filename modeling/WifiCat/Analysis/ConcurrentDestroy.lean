import WifiCat.Analysis.AddressSources
import WifiCat.Analysis.Restoration
import WifiCat.Library.Interference
import WifiCat.Model.Shutdown

/-!
# Taking the firewall down while others use it

`iptables_fw_destroy` empties the portal's chains and deletes them later; a chain that got a
rule in between stays.  When no other thread adds a rule to a chain in that time, the tables
of the router are what is left, whatever the order of the commands (`shutdown_leaves_nothing`):
other threads edit the portal's own chains only, and an emptied chain stays empty.
-/

set_option autoImplicit false

namespace WifiCat.Analysis

open CommandProgram Netfilter Scan Transition

variable {out : Outside} {base : Tables} {k : TableName}

/-! ## What other threads do -/

/-- A command on a rule of one of the portal's chains. -/
def RuleCommand : Command → Prop
  | .iptables cmd => cmd.op.chain ∈ portalChains cmd.table ∧ cmd.op.rule.isSome
  | .tc _ => True

theorem runs_ruleCommand (w : World) (request : Request) :
    Runs RuleCommand (fun _ => True) (serve w request) := by
  have houtgoing : CHAIN_OUTGOING ∈ portalChains .mangle := by decide
  have hincoming : CHAIN_INCOMING ∈ portalChains .mangle := by decide
  have hblocked : CHAIN_BLOCKED ∈ portalChains .mangle := by decide
  have htrusted : CHAIN_TRUSTED ∈ portalChains .mangle := by decide
  have hsources : Sources RuleCommand (fun _ => True) (fun _ _ => True) w.config.macmechanism
      [request] :=
    { tc := fun _ => trivial
      access := by
        intro fw client action _ cmd hcmd
        cases action <;>
        · simp only [accessCommands, List.mem_cons, List.not_mem_nil, or_false] at hcmd
          rcases hcmd with rfl | rfl | rfl
          · exact ⟨houtgoing, rfl⟩
          · exact ⟨hincoming, rfl⟩
          · exact ⟨hincoming, rfl⟩
      mac := by
        intro r arg _ config _ _
        refine ⟨trivial, fun fw => ?_⟩
        cases r <;> first | exact ⟨hblocked, rfl⟩ | exact ⟨htrusted, rfl⟩
      arrival := fun _ _ _ _ _ _ => trivial }
  have hkeeps : Keeps (fun _ => True) (fun _ _ => True) w.config.macmechanism w :=
    ⟨fun _ _ _ => trivial, fun _ _ => trivial, rfl⟩
  exact (runs_serve hsources hkeeps (List.mem_singleton.mpr rfl)).mono (fun _ h => h)
    fun _ _ => trivial

/-- The machine, and the chains that the shutdown has emptied. -/
abbrev Scene : Type := Host × List (TableName × String)

/-- The answer to a command of the shutdown. -/
def sceneAnswer (out : Outside) (e : Event) (s : Scene) : e.Answer × Scene :=
  ((Host.answer out e s.1).1, (Host.answer out e s.1).2, s.2 ++ emptiedBy e)

/-- A command of another thread that adds no rule to a chain emptied and still there. -/
def othersStep (out : Outside) (s s' : Scene) : Prop :=
  ∃ e : Event, (∀ cmd, e = .execute cmd → RuleCommand cmd) ∧
    (∀ cmd, e = .execute (.iptables cmd) → addsRule cmd.op = true →
      (cmd.table, cmd.op.chain) ∈ s.2 → (s.1.tables cmd.table).rules cmd.op.chain = none) ∧
    s' = ((Host.answer out e s.1).2, s.2)

/-- The tables after a command: as before, or edited by it. -/
theorem tables_of_answer (out : Outside) (e : Event) (h : Host) :
    (Host.answer out e h).2.tables = h.tables ∨
      ∃ cmd, e = .execute (.iptables cmd) ∧
        iptables cmd h.tables = some (Host.answer out e h).2.tables := by
  cases e with
  | list table chain => exact Or.inl rfl
  | logStatus rc cmd => exact Or.inl rfl
  | execute cmd =>
    cases cmd with
    | tc cmd =>
      refine Or.inl ?_
      simp only [Host.answer]
      split <;> rfl
    | iptables cmd =>
      rcases (run_execute_cases out cmd h).1 with ⟨-, hts⟩ | ⟨-, hsame⟩
      · exact Or.inr ⟨cmd, rfl, hts⟩
      · exact Or.inl hsame

/-- INTERNAL: what other threads do is to change the rules of chains of the portal that the
shutdown has not emptied yet. -/
theorem othersStep_cases {s s' : Scene} (h : othersStep out s s')
    (hempty : ∀ k c, (k, c) ∈ s.2 → ∀ rs, (s.1.tables k).rules c = some rs → rs = []) :
    s'.2 = s.2 ∧ (s'.1.tables = s.1.tables ∨
      ∃ (k : TableName) (op : IptablesOp) (t : Netfilter.Table Match Verdict Extension),
        op.chain ∈ portalChains k ∧ (k, op.chain) ∉ s.2 ∧
        ((s.1.tables k).rules op.chain).isSome = true ∧
        op.apply (s.1.tables k) = some t ∧ s'.1.tables = Function.update s.1.tables k t) := by
  obtain ⟨e, hrule, hrefill, rfl⟩ := h
  refine ⟨rfl, ?_⟩
  rcases tables_of_answer out e s.1 with hsame | ⟨cmd, rfl, hts⟩
  · exact Or.inl hsame
  · obtain ⟨hchain, hsome⟩ := hrule _ rfl
    obtain ⟨t, happly, hupdate⟩ := Option.map_eq_some_iff.mp (iptables_eq_some hts).2
    have happly' : (cmd.op.mapRule readRule).apply (s.1.tables cmd.table) = some t := happly
    have hrule' : (cmd.op.mapRule readRule).rule.isSome := by
      cases hop : cmd.op <;> simp [hop, Op.rule, Op.mapRule] at hsome ⊢
    have hexists := Op.isSome_of_apply happly' hrule'
    rw [Op.chain_mapRule] at hexists
    refine Or.inr ⟨cmd.table, cmd.op.mapRule readRule, t, ?_, ?_, ?_, happly', hupdate.symm⟩
    · rwa [Op.chain_mapRule]
    · rw [Op.chain_mapRule]
      intro hmem
      have hmissing := hrefill cmd rfl
      cases hop : cmd.op with
      | append c r =>
        rw [hop] at hmissing hexists hmem
        rw [hmissing rfl hmem] at hexists
        cases hexists
      | insert c n r =>
        rw [hop] at hmissing hexists hmem
        rw [hmissing rfl hmem] at hexists
        cases hexists
      | delete c r =>
        rw [hop] at happly' hmem
        obtain ⟨rs, hrs, hr⟩ := Op.mem_of_apply_delete happly'
        rw [hempty _ _ hmem rs hrs] at hr
        cases hr
      | newChain c => rw [hop] at hsome; cases hsome
      | deleteNum c n => rw [hop] at hsome; cases hsome
      | flush c => rw [hop] at hsome; cases hsome
      | deleteChain c => rw [hop] at hsome; cases hsome
    · rwa [Op.chain_mapRule]

/-! ## The stages of the shutdown -/

/-- How far the shutdown is: the jumps among `ms` may still be there, the chains emptied are
empty, those of `gone` deleted. -/
structure Stage (base : Tables) (ms : TableName → List (String × String))
    (gone : TableName → List String) (s : Scene) : Prop where
  overlay : ∀ k, PortalTable k (ms k) (base k) (s.1.tables k)
  empty : ∀ k c, (k, c) ∈ s.2 → ∀ rs, (s.1.tables k).rules c = some rs → rs = []
  gone : ∀ k, ∀ c ∈ gone k, (s.1.tables k).rules c = none

variable {ms : TableName → List (String × String)} {gone : TableName → List String}

theorem Stage.mono {s : Scene} (h : Stage base ms gone s) {gone' : TableName → List String}
    (hgone : ∀ k, ∀ c ∈ gone' k, c ∈ gone k) : Stage base ms gone' s :=
  ⟨h.overlay, h.empty, fun k c hc => h.gone k c (hgone k c hc)⟩

/-- A change of one chain. -/
theorem Stage.update {s s' : Scene} (h : Stage base ms gone s) (c : String)
    {t : Netfilter.Table Match Verdict Extension} (hover : PortalTable k (ms k) (base k) t)
    (hother : ∀ d, d ≠ c → t.rules d = (s.1.tables k).rules d)
    (hupdate : s'.1.tables = Function.update s.1.tables k t)
    (hemptied : ∀ k' d, (k', d) ∈ s'.2 → (k', d) ∈ s.2 ∨ (k' = k ∧ d = c))
    (hrules : ∀ rs, t.rules c = some rs → (k, c) ∈ s'.2 → rs = [])
    (hgone : c ∈ gone k → t.rules c = none) : Stage base ms gone s' := by
  have hsame : ∀ k' d, ¬(k' = k ∧ d = c) →
      (s'.1.tables k').rules d = (s.1.tables k').rules d := by
    intro k' d hne
    rw [hupdate]
    rcases eq_or_ne k' k with rfl | hk
    · rw [Function.update_self]
      exact hother d fun hd => hne ⟨rfl, hd⟩
    · rw [Function.update_of_ne hk]
  have hself : (s'.1.tables k).rules c = t.rules c := by
    rw [hupdate, Function.update_self]
  refine ⟨fun k' => ?_, fun k' d hmem rs hrs => ?_, fun k' d hd => ?_⟩
  · rw [hupdate]
    rcases eq_or_ne k' k with rfl | hk
    · rwa [Function.update_self]
    · rw [Function.update_of_ne hk]
      exact h.overlay k'
  · by_cases heq : k' = k ∧ d = c
    · obtain ⟨rfl, rfl⟩ := heq
      rw [hself] at hrs
      exact hrules rs hrs hmem
    · rw [hsame k' d heq] at hrs
      rcases hemptied k' d hmem with hold | hnew
      · exact h.empty k' d hold rs hrs
      · exact absurd hnew heq
  · by_cases heq : k' = k ∧ d = c
    · obtain ⟨rfl, rfl⟩ := heq
      rw [hself]
      exact hgone hd
    · rw [hsame k' d heq]
      exact h.gone k' d hd

theorem Stage.same {s s' : Scene} (h : Stage base ms gone s)
    (htables : s'.1.tables = s.1.tables) (hemptied : s'.2 = s.2) : Stage base ms gone s' := by
  refine ⟨fun k => ?_, fun k c hmem rs hrs => ?_, fun k c hc => ?_⟩
  · rw [htables]
    exact h.overlay k
  · rw [hemptied] at hmem
    rw [htables] at hrs
    exact h.empty k c hmem rs hrs
  · rw [htables]
    exact h.gone k c hc

/-- With all jumps and all chains gone the router's tables are left. -/
theorem Stage.tables_eq {s : Scene} (h : Stage base ms gone s) (hms : ∀ k, ms k = [])
    (hgone : ∀ k, gone k = portalChains k) : s.1.tables = base := by
  funext k
  have hnone : Overlay (portalChains k) (fun _ _ => False) 3 (base k) (s.1.tables k) := by
    refine (h.overlay k).restrict fun _ _ _ _ _ _ _ _ _ hmem => ?_
    simp [Mentioned, hms] at hmem
  exact hnone.eq_base fun c hc => h.gone k c ((hgone k).symm ▸ hc)

/-- INTERNAL: other threads keep every stage. -/
theorem stable_stage : Prog.Stable (othersStep out) (Stage base ms gone) := by
  intro s s' hstep h
  obtain ⟨hemptied, hcases⟩ := othersStep_cases hstep h.empty
  rcases hcases with hsame | ⟨k, op, t, hchain, hfresh, hexists, happly, hupdate⟩
  · exact h.same hsame hemptied
  · refine h.update op.chain ((h.overlay k).edit happly hchain) (fun d hd => ?_) hupdate
      (fun k' c hmem => ?_) (fun rs _ hmem => ?_) fun hc => ?_
    · rw [Op.rules_of_apply happly, if_neg hd]
    · rw [hemptied] at hmem
      exact Or.inl hmem
    · rw [hemptied] at hmem
      exact absurd hmem hfresh
    · rw [h.gone k op.chain hc] at hexists
      cases hexists

/-- Other threads empty no chain for the shutdown. -/
theorem stable_emptied (P : List (TableName × String) → Prop) :
    Prog.Stable (othersStep out) fun s => Stage base ms gone s ∧ P s.2 := by
  rintro s s' hstep ⟨hs, hP⟩
  refine ⟨stable_stage s s' hstep hs, ?_⟩
  rwa [(othersStep_cases hstep hs.empty).1]

/-- Other threads leave the chains of the router alone. -/
theorem stable_rules {c : String} (hc : c ∉ portalChains k)
    (P : Option (List IptablesRule) → Prop) :
    Prog.Stable (othersStep out) fun s => Stage base ms gone s ∧ P ((s.1.tables k).rules c) := by
  rintro s s' hstep ⟨hs, hP⟩
  refine ⟨stable_stage s s' hstep hs, ?_⟩
  rcases (othersStep_cases hstep hs.empty).2 with hsame | ⟨k', op, t, hchain, -, -, happly, hupdate⟩
  · rwa [hsame]
  · rw [hupdate]
    rcases eq_or_ne k k' with rfl | hk
    · rw [Function.update_self, Op.rules_of_apply happly, if_neg ?_]
      · exact hP
      · rintro rfl
        exact hc hchain
    · rwa [Function.update_of_ne hk]

/-! ## The commands of the shutdown -/

section Destroyer

variable (hout : Obliging out)

include hout

/-- INTERNAL: the tables after a command on a machine that lets it pass; its exit status is
none that is retried. -/
theorem answer_of_obliging (cmd : IptablesCommand) (h : Host) :
    (Host.answer out (.execute (.iptables cmd)) h).1 ≠ (4 : BitVec 32) ∧
      (Host.answer out (.execute (.iptables cmd)) h).2.tables =
        (iptables cmd h.tables).getD h.tables := by
  simp only [Host.answer, hout h.time cmd, ne_eq, not_true_eq_false, if_false]
  cases iptables cmd h.tables with
  | none => exact ⟨(by decide : (1 : BitVec 32) ≠ 4), rfl⟩
  | some ts => exact ⟨(by decide : (0 : BitVec 32) ≠ 4), rfl⟩

/-- INTERNAL: one command, between two stable assertions. -/
theorem holds_command {I J : Scene → Prop} (hI : Prog.Stable (othersStep out) I)
    (hJ : Prog.Stable (othersStep out) J) {cmd : IptablesCommand}
    (hcmd : ∀ s, I s → J (sceneAnswer out (.execute (.iptables cmd)) s).2) {s : Scene} (hs : I s) :
    Prog.Holds (sceneAnswer out) (othersStep out) (fun _ => J) (iptablesDoCommand true cmd) s := by
  have hretry : Prog.Holds (sceneAnswer out) (othersStep out) (fun _ => J)
      (executeRetrying cmd 4) s := by
    refine Prog.holds_ask hI hs fun t ht => ?_
    have hrc : (sceneAnswer out (.execute (.iptables cmd)) t).1 ≠ (4 : BitVec 32) :=
      (answer_of_obliging hout cmd t.1).1
    simp only [Prog.pure_eq]
    show Prog.Holds _ _ _ (if _ then _ else _) _
    rw [if_neg hrc]
    exact Prog.holds_done hJ (hcmd t ht) fun _ h => h
  exact hretry.bind fun rc t ht => Prog.holds_done hJ ht fun _ h => h

omit hout in
theorem destroyMention_succ (fwQuiet : Bool) (c d : String) (fuel : ℕ) :
    iptablesFwDestroyMention fwQuiet k c d (fuel + 1) =
      (.ask (Event.list k c) fun lines =>
        match lines.findSome? (mentionedRule d) with
        | none => pure (some (-1))
        | some rulenum => do
          let _ ← iptablesDoCommand fwQuiet ⟨k, .deleteNum c (rulenum - 1)⟩
          let rest ← iptablesFwDestroyMention fwQuiet k c d fuel
          pure (rest.map fun _ => 0)) := rfl

/-- INTERNAL: the rule that mentions an own chain is deleted from a chain of the router.
SOURCE: fw_iptables.c:720-723 -/
theorem stage_of_deleteNum {c : String} {rs : List IptablesRule} {r : IptablesRule} {j : ℕ}
    {t : Scene} (ht : Stage base ms gone t) (hrs : (t.1.tables k).rules c = some rs)
    (hj : rs[j]? = some r) (hinto : r.jumpsInto (portalChains k) = true) :
    Stage base ms gone (sceneAnswer out (.execute (.iptables ⟨k, .deleteNum c j⟩)) t).2 ∧
      (((sceneAnswer out (.execute (.iptables ⟨k, .deleteNum c j⟩)) t).2.1.tables k).rules c =
        some (rs.eraseIdx j)) := by
  obtain ⟨happly, hover⟩ := (ht.overlay k).deleteNum hrs hj hinto
  have htables := (answer_of_obliging hout ⟨k, .deleteNum c j⟩ t.1).2
  have hiptables : iptables ⟨k, .deleteNum c j⟩ t.1.tables =
      some (Function.update t.1.tables k ((t.1.tables k).set c (rs.eraseIdx j))) := by
    simp only [iptables, Op.rule, Option.all_none, if_true, Cmd.mapRule, Op.mapRule,
      Cmd.apply, happly, Option.map_some]
  rw [hiptables, Option.getD_some] at htables
  refine ⟨ht.update c hover (fun d hd => ?_) htables (fun k' d hmem => ?_)
    (fun rs' _ hmem => ?_) fun hgone => ?_, ?_⟩
  · rw [Table.rules_set, if_neg hd]
  · have hmem : (k', d) ∈ t.2 ++ [] := hmem
    rw [List.append_nil] at hmem
    exact Or.inl hmem
  · -- a chain with a rule has not been emptied
    have hmem : (k, c) ∈ t.2 ++ [] := hmem
    rw [List.append_nil] at hmem
    rw [ht.empty k c hmem rs hrs] at hj
    cases hj
  · rw [ht.gone k c hgone] at hrs
    cases hrs
  · simp only [sceneAnswer, htables, Function.update_self, Table.rules_set, if_true, hrs,
      Option.map_some]

/-- INTERNAL: the recursion on one mention, between commands of others.
SOURCE: fw_iptables.c:692-742 -/
theorem holds_destroyMention (hlisting : Listing out) (hforeign : Foreign out base)
    {c d : String} (hc : c ∉ portalChains k) (hd : d ∈ portalChains k) {fuel : ℕ} {s : Scene}
    (hs : Stage base ms gone s)
    (hfuel : (((s.1.tables k).rules c).getD []).countP (Rule.jumpsInto (portalChains k)) < fuel) :
    Prog.Holds (sceneAnswer out) (othersStep out)
      (fun r t => r.isSome = true ∧
        Stage base (Function.update ms k ((ms k).filter (· ≠ (c, d)))) gone t)
      (iptablesFwDestroyMention true k c d fuel) s := by
  induction fuel generalizing s with
  | zero => exact absurd hfuel (Nat.not_lt_zero _)
  | succ fuel ih =>
    rw [destroyMention_succ]
    refine Prog.holds_ask (stable_rules hc fun o =>
      (o.getD []).countP (Rule.jumpsInto (portalChains k)) < fuel + 1) ⟨hs, hfuel⟩ ?_
    rintro ⟨h, emptied⟩ ⟨ht, hcount⟩
    have hlist : sceneAnswer out (.list k c) (h, emptied) =
        (listing out h k c, h, emptied) := by
      simp only [sceneAnswer, emptiedBy, List.append_nil]
      rfl
    rw [hlist]
    dsimp only
    cases hfind : (listing out h k c).findSome? (mentionedRule d) with
    | none =>
      refine Prog.holds_done (I := Stage base _ gone) stable_stage ?_ fun t ht => ⟨rfl, ht⟩
      refine ⟨fun k' => ?_, ht.empty, ht.gone⟩
      rcases eq_or_ne k' k with rfl | hk
      · rw [Function.update_self]
        exact restrict_of_not_found hlisting (ht.overlay k') hfind
      · rw [Function.update_of_ne hk]
        exact ht.overlay k'
    | some rulenum =>
      obtain ⟨rs, r, hrs, hi, hinto⟩ := jump_of_found hlisting hforeign hc hd (ht.overlay k) hfind
      have hless : (rs.eraseIdx (rulenum - 1)).countP (Rule.jumpsInto (portalChains k)) + 1 =
          rs.countP (Rule.jumpsInto (portalChains k)) := by
        obtain ⟨hlt, hr⟩ := List.getElem?_eq_some_iff.mp hi
        rw [← (List.getElem_cons_eraseIdx_perm hlt).countP_eq, List.countP_cons, hr, hinto,
          if_pos rfl]
      rw [hrs, Option.getD_some] at hcount
      have hcommand : Prog.Holds (sceneAnswer out) (othersStep out)
          (fun _ t => Stage base ms gone t ∧
            (((t.1.tables k).rules c).getD []).countP (Rule.jumpsInto (portalChains k)) < fuel)
          (iptablesDoCommand true ⟨k, .deleteNum c (rulenum - 1)⟩) (h, emptied) := by
        refine holds_command hout (stable_rules hc fun o => o = some rs)
          (stable_rules hc fun o =>
            (o.getD []).countP (Rule.jumpsInto (portalChains k)) < fuel) ?_ ⟨ht, hrs⟩
        rintro t ⟨ht, hrs⟩
        obtain ⟨hstage, hrules⟩ := stage_of_deleteNum hout ht hrs hi hinto
        refine ⟨hstage, ?_⟩
        rw [hrules, Option.getD_some]
        omega
      refine hcommand.bind fun _ t ht => ?_
      refine (ih ht.1 ht.2).bind fun rest t' ht' => ?_
      refine Prog.holds_done (I := Stage base _ gone) stable_stage ht'.2 fun t'' ht'' => ?_
      exact ⟨by simpa using ht'.1, ht''⟩

/-- INTERNAL: the mentions of one table. -/
theorem holds_destroyMentions (hlisting : Listing out) (hforeign : Foreign out base) {fuel : ℕ}
    (hfuel : 3 < fuel) {todo : List (String × String)}
    (htodo : ∀ m ∈ todo, m ∈ portalMentions k) {s : Scene} (hs : Stage base ms gone s) :
    Prog.Holds (sceneAnswer out) (othersStep out)
      (fun r t => r = true ∧
        Stage base (Function.update ms k ((ms k).filter (· ∉ todo))) gone t)
      (destroyMentions fuel true k todo) s := by
  induction todo generalizing ms s with
  | nil =>
    have hsame : Function.update ms k ((ms k).filter (· ∉ [])) = ms := by simp
    rw [hsame]
    exact Prog.holds_done stable_stage hs fun t ht => ⟨rfl, ht⟩
  | cons m todo ih =>
    obtain ⟨c, d⟩ := m
    obtain ⟨hc, hd⟩ := portalMentions_mem (htodo (c, d) (by simp))
    have hone := holds_destroyMention hout hlisting hforeign hc hd hs
      (Nat.lt_of_le_of_lt (countP_le_three hc (hs.overlay k)) hfuel)
    refine hone.bind fun r t ht => ?_
    rw [ht.1, if_pos rfl]
    have hrest := ih (fun m hm => htodo m (List.mem_cons_of_mem _ hm)) ht.2
    have hfilter : ((ms k).filter (· ≠ (c, d))).filter (· ∉ todo) =
        (ms k).filter (· ∉ (c, d) :: todo) := by
      rw [List.filter_filter]
      refine List.filter_congr fun m _ => ?_
      simp [and_comm]
    rwa [Function.update_self, Function.update_idem, hfilter] at hrest

/-- INTERNAL: an own chain is emptied.
SOURCE: fw_iptables.c:641-645 -/
theorem stage_of_flush {c : String} (hc : c ∈ portalChains k) {t : Scene}
    (ht : Stage base ms gone t) :
    Stage base ms gone (sceneAnswer out (.execute (.iptables ⟨k, .flush c⟩)) t).2 := by
  have htables := (answer_of_obliging hout ⟨k, .flush c⟩ t.1).2
  rw [iptables_ruleless rfl] at htables
  have hrules := Overlay.rules_attempt_flush (t.1.tables k) c
  refine ht.update c ((ht.overlay k).attempt_edit (show (Op.flush c).chain ∈ _ from hc))
    (fun d hd => ?_) htables (fun k' d hmem => ?_) (fun rs hrs _ => ?_) fun hgone => ?_
  · rw [hrules, if_neg hd]
  · rcases List.mem_append.mp hmem with hmem | hmem
    · exact Or.inl hmem
    · exact Or.inr (Prod.mk.inj (List.mem_singleton.mp hmem))
  · rw [hrules, if_pos rfl] at hrs
    obtain ⟨-, -, rfl⟩ := Option.map_eq_some_iff.mp hrs
    rfl
  · rw [hrules, if_pos rfl, ht.gone k c hgone]
    rfl

/-- INTERNAL: an own chain is deleted, once no jump is left and all own chains are empty.
SOURCE: fw_iptables.c:646-650 -/
theorem stage_of_deleteChain {c : String} (hc : c ∈ portalChains k) {t : Scene}
    (ht : Stage base ms gone t) (hms : ms k = []) (hall : ∀ d ∈ portalChains k, (k, d) ∈ t.2) :
    Stage base ms (Function.update gone k (c :: gone k))
      (sceneAnswer out (.execute (.iptables ⟨k, .deleteChain c⟩)) t).2 := by
  have htables := (answer_of_obliging hout ⟨k, .deleteChain c⟩ t.1).2
  rw [iptables_ruleless rfl] at htables
  have hnone : Overlay (portalChains k) (fun _ _ => False) 3 (base k) (t.1.tables k) := by
    refine (ht.overlay k).restrict fun _ _ _ _ _ _ _ _ _ hmem => ?_
    simp [Mentioned, hms] at hmem
  have hrules := hnone.rules_attempt_deleteChain (fun d hd => ht.empty k d (hall d hd)) hc
  have hstage : Stage base ms gone
      (sceneAnswer out (.execute (.iptables ⟨k, .deleteChain c⟩)) t).2 := by
    refine ht.update c ((ht.overlay k).attempt_edit (show (Op.deleteChain c).chain ∈ _ from hc))
      (fun d hd => ?_) htables (fun k' d hmem => ?_) (fun rs hrs _ => ?_) fun _ => ?_
    · rw [hrules, if_neg hd]
    · have hmem : (k', d) ∈ t.2 ++ [] := hmem
      rw [List.append_nil] at hmem
      exact Or.inl hmem
    · rw [hrules, if_pos rfl] at hrs
      cases hrs
    · rw [hrules, if_pos rfl]
  refine ⟨hstage.overlay, hstage.empty, fun k' d hd => ?_⟩
  rcases eq_or_ne k' k with rfl | hk
  · rw [Function.update_self] at hd
    rcases List.mem_cons.mp hd with rfl | hd
    · simp only [sceneAnswer, htables, Function.update_self, hrules, if_true]
    · exact hstage.gone k' d hd
  · rw [Function.update_of_ne hk] at hd
    exact hstage.gone k' d hd

/-- INTERNAL: `-F` for every chain.
SOURCE: fw_iptables.c:641-645, 660, 671-675 -/
theorem holds_flushAll {s : Scene} (hs : Stage base ms gone s) :
    Prog.Holds (sceneAnswer out) (othersStep out)
      (fun _ t => Stage base ms gone t ∧ ∀ c ∈ portalChains k, c ∉ [] → (k, c) ∈ t.2)
      ((portalChains k).foldlM (fun (rc : BitVec 32) c => do
        return rc ||| (← iptablesDoCommand true ⟨k, .flush c⟩)) 0) s := by
  have hstable : ∀ rest : List String, Prog.Stable (othersStep out) fun t =>
      Stage base ms gone t ∧ ∀ c ∈ portalChains k, c ∉ rest → (k, c) ∈ t.2 :=
    fun rest => stable_emptied fun l => ∀ c ∈ portalChains k, c ∉ rest → (k, c) ∈ l
  refine Prog.holds_foldlM (I := fun rest t => Stage base ms gone t ∧
    ∀ c ∈ portalChains k, c ∉ rest → (k, c) ∈ t.2) (hstable []) ?_ 0
    ⟨hs, fun c hc hnot => absurd hc hnot⟩
  intro c rest rc t hsuffix ht
  refine (holds_command hout (hstable (c :: rest)) (hstable rest) ?_ ht).bind
    fun _ t' ht' => Prog.holds_done (hstable rest) ht' fun _ h => h
  rintro t ⟨ht, hmem⟩
  refine ⟨stage_of_flush hout (hsuffix.subset List.mem_cons_self) ht, fun d hd hnot => ?_⟩
  rcases eq_or_ne d c with rfl | hne
  · exact List.mem_append_right _ (List.mem_singleton.mpr rfl)
  · exact List.mem_append_left _ (hmem d hd (by simp [hne, hnot]))

omit hout in
/-- The chains that are deleted when those of `rest` are still to come. -/
def goneBut (gone : TableName → List String) (k : TableName) (rest : List String) :
    TableName → List String :=
  Function.update gone k ((portalChains k).filter (· ∉ rest))

/-- INTERNAL: `-X` for every chain, once they are empty.
SOURCE: fw_iptables.c:646-650, 661, 676-680 -/
theorem holds_deleteAll (hms : ms k = []) {s : Scene} (hs : Stage base ms gone s)
    (hempty : ∀ c ∈ portalChains k, (k, c) ∈ s.2) (rc : BitVec 32) :
    Prog.Holds (sceneAnswer out) (othersStep out)
      (fun _ t => Stage base ms (goneBut gone k []) t ∧ ∀ c ∈ portalChains k, (k, c) ∈ t.2)
      ((portalChains k).foldlM (fun rc c => do
        return rc ||| (← iptablesDoCommand true ⟨k, .deleteChain c⟩)) rc) s := by
  have hstable : ∀ rest, Prog.Stable (othersStep out) fun t =>
      Stage base ms (goneBut gone k rest) t ∧ ∀ c ∈ portalChains k, (k, c) ∈ t.2 :=
    fun rest => stable_emptied fun l => ∀ c ∈ portalChains k, (k, c) ∈ l
  refine Prog.holds_foldlM (I := fun rest t => Stage base ms (goneBut gone k rest) t ∧
    ∀ c ∈ portalChains k, (k, c) ∈ t.2) (hstable []) ?_ rc ⟨hs.mono fun k' d hd => ?_, hempty⟩
  · intro c rest rc t hsuffix ht
    refine (holds_command hout (hstable (c :: rest)) (hstable rest) ?_ ht).bind
      fun _ t' ht' => Prog.holds_done (hstable rest) ht' fun _ h => h
    rintro t ⟨ht, hall⟩
    have hstage := stage_of_deleteChain hout (hsuffix.subset List.mem_cons_self) ht hms hall
    refine ⟨hstage.mono fun k' d hd => ?_, fun d hd => List.mem_append_left _ (hall d hd)⟩
    rcases eq_or_ne k' k with rfl | hk
    · simp only [goneBut, Function.update_self, List.mem_filter, decide_eq_true_eq] at hd
      simp only [goneBut, Function.update_self, List.mem_cons, List.mem_filter, not_or,
        decide_eq_true_eq]
      rcases eq_or_ne d c with rfl | hne
      · exact Or.inl rfl
      · exact Or.inr ⟨hd.1, hne, hd.2⟩
    · simpa only [goneBut, Function.update_of_ne hk] using hd
  · rcases eq_or_ne k' k with rfl | hk
    · simp only [goneBut, Function.update_self, List.mem_filter, decide_eq_true_eq] at hd
      exact absurd hd.1 hd.2
    · simpa only [goneBut, Function.update_of_ne hk] using hd

/-- INTERNAL: one table's part of `iptables_fw_destroy`, between commands of others.
SOURCE: fw_iptables.c:636-681 -/
theorem holds_destroyPart (hlisting : Listing out) (hforeign : Foreign out base) {fuel : ℕ}
    (hfuel : 3 < fuel) {s : Scene} (hs : Stage base ms gone s) (hms : ms k = portalMentions k) :
    Prog.Holds (sceneAnswer out) (othersStep out)
      (fun r t => r = true ∧
        Stage base (Function.update ms k []) (Function.update gone k (portalChains k)) t)
      (destroyPart fuel true k) s := by
  unfold destroyPart destroyTable
  refine (holds_destroyMentions hout hlisting hforeign hfuel (fun m hm => hm) hs).bind
    fun r t ht => ?_
  have hnil : (ms k).filter (· ∉ portalMentions k) = [] := by
    rw [hms, List.filter_eq_nil_iff]
    intro m hm
    simpa using hm
  rw [hnil] at ht
  rw [ht.1, if_pos rfl]
  have hstable : Prog.Stable (othersStep out)
      (Stage base (Function.update ms k []) (Function.update gone k (portalChains k))) :=
    stable_stage
  have hsweep : Prog.Holds (sceneAnswer out) (othersStep out)
      (fun _ t => Stage base (Function.update ms k []) (Function.update gone k (portalChains k)) t)
      (iptablesDoCommands true ((portalChains k).map (fun c => ⟨k, .flush c⟩) ++
        (portalChains k).map fun c => ⟨k, .deleteChain c⟩)) t := by
    unfold iptablesDoCommands
    rw [List.foldlM_append, List.foldlM_map]
    refine (holds_flushAll hout ht.2).bind fun rc t' ht' => ?_
    rw [List.foldlM_map]
    refine (holds_deleteAll hout (Function.update_self k [] ms) ht'.1
      (fun c hc => ht'.2 c hc List.not_mem_nil) rc).mono fun _ t'' ht'' => ?_
    have hall : (portalChains k).filter (· ∉ []) = portalChains k := by simp
    rw [← hall]
    exact ht''.1
  exact hsweep.bind fun _ t' ht' => Prog.holds_done hstable ht' fun _ h => ⟨rfl, h⟩

/-- INTERNAL: **`iptables_fw_destroy` between commands of others** returns, and leaves the
tables of the router.
SOURCE: fw_iptables.c:611-684 -/
theorem holds_destroy (hlisting : Listing out) (hforeign : Foreign out base) {fuel : ℕ}
    (hfuel : 3 < fuel) (config : Config) (fw : Firewall) {s : Scene}
    (hs : Stage base portalMentions (fun _ => []) s) :
    Prog.Holds (sceneAnswer out) (othersStep out) (fun r t => r.1 = true ∧ t.1.tables = base)
      (iptablesFwDestroy fuel config fw) s := by
  obtain ⟨hmangle, hnat, hfilter⟩ := destroyParts fuel true
  simp only [iptablesFwDestroy, hmangle, hnat, hfilter]
  have htc : Runs (fun cmd => ∀ c, cmd ≠ .iptables c) (fun _ => True)
      (if config.trafficControl then tcDestroyTc config else pure 0 : Program (BitVec 32)) := by
    split
    · exact runs_tcDoCommands fun cmd c => by simp
    · trivial
  refine (Prog.holds_of_always stable_stage (fun e t he ht => ?_) htc hs).bind fun _ s₀ hs₀ => ?_
  · refine ht.same ?_ ?_
    · rcases tables_of_answer out e t.1 with hsame | ⟨cmd, rfl, -⟩
      · exact hsame
      · exact absurd rfl (he _ rfl cmd)
    · have hnone : emptiedBy e = [] := by
        unfold emptiedBy
        split
        · exact absurd rfl (he _ rfl _)
        · rfl
      show t.2 ++ emptiedBy e = t.2
      rw [hnone, List.append_nil]
  · refine (holds_destroyPart hout hlisting hforeign hfuel hs₀.2 rfl).bind fun r₁ s₁ hs₁ => ?_
    rw [hs₁.1, if_pos rfl]
    refine (holds_destroyPart hout hlisting hforeign hfuel hs₁.2 rfl).bind fun r₂ s₂ hs₂ => ?_
    rw [hs₂.1, if_pos rfl]
    refine (holds_destroyPart hout hlisting hforeign hfuel hs₂.2 rfl).bind fun r₃ s₃ hs₃ => ?_
    refine Prog.holds_done (I := Stage base _ _) stable_stage hs₃.2 fun t ht => ⟨hs₃.1, ?_⟩
    refine ht.tables_eq (fun k => ?_) fun k => ?_
    · cases k <;> rfl
    · cases k <;> rfl

end Destroyer

/-! ## The threads together -/

/-- What holds as long as no chain that was emptied gets a rule. -/
structure ShutdownInv (out : Outside) (base : Tables) (p : Shutdown) : Prop where
  destroyer : Prog.Holds (sceneAnswer out) (othersStep out)
    (fun r t => r.1 = true ∧ t.1.tables = base) p.destroyer (p.host, p.emptied)
  others : ∀ q ∈ p.others, Runs RuleCommand (fun _ => True) q

/-- INTERNAL: a turn keeps it. -/
theorem ShutdownInv.step {p p' : Shutdown} {turn : Shutdown.Turn} (h : ShutdownInv out base p)
    (hok : p.refills turn = false) (hstep : p.step out turn = some p') :
    ShutdownInv out base p' := by
  cases turn with
  | destroyer =>
    simp only [Shutdown.step] at hstep
    split at hstep
    · cases hstep
    · next e k hdestroyer =>
      obtain rfl := Option.some.inj hstep
      have hask := h.destroyer
      rw [hdestroyer] at hask
      exact ⟨hask.ask, h.others⟩
  | other i =>
    simp only [Shutdown.step] at hstep
    split at hstep
    · next e k hi =>
      obtain rfl := Option.some.inj hstep
      have hruns := h.others _ (List.mem_of_getElem? hi)
      refine ⟨h.destroyer.others ⟨e, hruns.1, ?_, rfl⟩, fun q hq => ?_⟩
      · rintro cmd rfl hadds hemptied
        simp only [Shutdown.refills, hi, hadds, hemptied, decide_true, Bool.and_self,
          Bool.true_and] at hok
        simpa using hok
      · rcases List.mem_or_eq_of_mem_set hq with hq | rfl
        · exact h.others q hq
        · exact hruns.2 _
    · cases hstep
  | arrive w request =>
    obtain rfl := Option.some.inj hstep
    refine ⟨h.destroyer, fun q hq => ?_⟩
    rcases List.mem_append.mp hq with hq | hq
    · exact h.others q hq
    · rw [List.mem_singleton.mp hq]
      exact (runs_ruleCommand w request).bind fun _ _ => trivial

/-- **Shutdown leaves nothing behind** in every interleaving in which no other thread adds a rule
to a chain between its `-F` and its `-X`: from any state of a running portal, when
`iptables_fw_destroy` returns, no chain of the portal and no rule that mentions one is left.
SOURCE: fw_iptables.c:611-742, gateway.c:125-155 -/
theorem shutdown_leaves_nothing (out out' : Outside) (hprobes : ProbesUndone out)
    (hlisting : Listing out') (hout : Obliging out') (config config' : Config)
    (fw fw' : Firewall) (h : Host) (hforeign : Foreign out' h.tables) (n : ℕ)
    (hn : Prog.questions (Host.answer out) (iptablesFwInitMarks config fw) h ≤ n)
    (requests : List Request) (w : World) (m fuel : ℕ) (hfuel : 4 ≤ fuel) :
    let started := Prog.runFor (Host.answer out) n (iptablesFwInit config fw) h
    let running := Prog.runFor (Host.answer out) m (session requests w) started
    ∀ p, Reach (Shutdown.step out') (fun p turn => p.refills turn = false)
        (fun p => p = { host := running, destroyer := iptablesFwDestroy fuel config' fw' }) p →
      ∀ r, p.returned = some r → r.1 = true ∧ Foreign out' p.host.tables := by
  intro started running p hreach r hr
  have hrunning : ∀ k, PortalTable k (portalMentions k) (h.tables k) (running.tables k) :=
    overlay_of_session (overlay_of_fwInit hprobes (fun k => hforeign.overlay hlisting k) hn)
      requests w m
  have hinv : ShutdownInv out' h.tables p := by
    refine Reach.invariant (I := ShutdownInv out' h.tables) ?_ ?_ hreach
    · rintro p rfl
      refine ⟨holds_destroy hout hlisting hforeign hfuel config' fw' ⟨hrunning, ?_, ?_⟩, ?_⟩
      · exact fun k c hmem => absurd hmem List.not_mem_nil
      · exact fun k c hmem => absurd hmem List.not_mem_nil
      · exact fun q hq => absurd hq List.not_mem_nil
    · exact fun p turn p' hp hok hstep => hp.step hok hstep
  have hholds := hinv.destroyer
  unfold Shutdown.returned at hr
  split at hr
  · next r' hdone =>
    rw [hdone] at hholds
    obtain ⟨htrue, htables⟩ := hholds.done
    rw [← Option.some.inj hr, htables]
    exact ⟨htrue, hforeign⟩
  · cases hr

/-! ## A router -/

/-- The router with the portal up, and the daemon's state there. -/
def portalRouter : Host :=
  Prog.runFor (Host.answer listingMachine) 39 (iptablesFwInit {} {}) sampleRouter

def portalWorld : World := (runOn listingMachine (startDaemon {}) sampleRouter).1.2

/-- The shutdown is about to begin on it. -/
def portalShutdown : Shutdown :=
  { host := portalRouter, destroyer := iptablesFwDestroy 4 {} {} }

/-- After so many commands of the shutdown a client is authenticated: so many commands of its
thread come before the rest of the shutdown. -/
def lateClient (before commands rest : ℕ) : List Shutdown.Turn :=
  List.replicate before .destroyer ++
    .arrive portalWorld (.ndsctlAuth (sampleMoment 1) "10.0.0.2".toList) ::
      List.replicate commands (.other 0) ++ List.replicate rest .destroyer

/-- A client that comes before its chains are emptied does no harm. -/
theorem shutdown_leaves_nothing_sample :
    ∃ p : Shutdown, Reach (Shutdown.step listingMachine) (fun p turn => p.refills turn = false)
        (fun p => p = portalShutdown) p ∧
      p.returned.isSome = true ∧ Foreign listingMachine p.host.tables := by
  obtain ⟨p, hp⟩ : ∃ p, run (Shutdown.step listingMachine) (fun p turn => p.refills turn = false)
      (lateClient 14 3 30) portalShutdown = some p :=
    Option.isSome_iff_exists.mp (by decide +kernel)
  have hend : (run (Shutdown.step listingMachine) (fun p turn => p.refills turn = false)
      (lateClient 14 3 30) portalShutdown).map (fun p => p.returned.isSome) = some true := by
    decide +kernel
  rw [hp, Option.map_some, Option.some.injEq] at hend
  obtain ⟨r, hr⟩ := Option.isSome_iff_exists.mp hend
  have hreach : Reach (Shutdown.step listingMachine) (fun p turn => p.refills turn = false)
      (fun p => p = portalShutdown) p := Reach.of_run _ (Reach.start rfl) hp
  exact ⟨p, hreach, hend, (shutdown_leaves_nothing listingMachine listingMachine (fun _ _ _ _ => rfl)
    listing_listingMachine (fun _ _ => rfl) {} {} {} {} sampleRouter foreign_sampleRouter 39
    (by decide +kernel) [] portalWorld 0 4 le_rfl p hreach r hr).2⟩

/-- A client authenticated between `-F ndsOUT` and `-X ndsOUT` keeps the chain alive. -/
theorem shutdown_leaves_chain :
    ∃ p : Shutdown, Reach (Shutdown.step listingMachine) (fun _ _ => True)
        (fun p => p = portalShutdown) p ∧
      p.returned.isSome = true ∧ CHAIN_OUTGOING ∈ (p.host.tables .mangle).names ∧
      ¬Foreign listingMachine p.host.tables := by
  obtain ⟨p, hp⟩ : ∃ p, run (Shutdown.step listingMachine) (fun _ _ => True)
      (lateClient 18 1 26) portalShutdown = some p :=
    Option.isSome_iff_exists.mp (by decide +kernel)
  have hend : (run (Shutdown.step listingMachine) (fun _ _ => True)
      (lateClient 18 1 26) portalShutdown).map (fun p => p.returned.isSome &&
        decide (CHAIN_OUTGOING ∈ (p.host.tables .mangle).names)) = some true := by
    decide +kernel
  rw [hp, Option.map_some, Option.some.injEq, Bool.and_eq_true, decide_eq_true_eq] at hend
  refine ⟨p, Reach.of_run _ (Reach.start rfl) hp, hend.1, hend.2, fun hforeign => ?_⟩
  exact hforeign.chains .mangle CHAIN_OUTGOING (by decide) hend.2

end WifiCat.Analysis
