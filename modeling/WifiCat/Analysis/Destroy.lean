import WifiCat.Analysis.AccessRules
import WifiCat.Library.Netfilter.Overlay

/-!
# What `iptables_fw_destroy` takes away

`iptables_fw_destroy` knows of the firewall only what it lists: it deletes the rules whose
line mentions a chain of the portal, one after the other, and then empties and deletes the
chains.  On tables that are an overlay over some base, with all jumps among the ones it
looks for, it ends after at most four rounds a chain and leaves the base
(`destroy_restores`).
-/

set_option autoImplicit false

namespace WifiCat.Analysis

open CommandProgram Netfilter Scan

variable {out : Outside} {fwQuiet : Bool} {k : TableName}

/-! ## What is looked for -/

/-- The chains that are emptied and deleted.
SOURCE: fw_iptables.c:641-681 -/
def portalChains : TableName → List String
  | .mangle => [CHAIN_TRUSTED, CHAIN_BLOCKED, CHAIN_ALLOWED, CHAIN_OUTGOING, CHAIN_INCOMING]
  | .nat => [CHAIN_OUTGOING]
  | .filter => [CHAIN_TO_ROUTER, CHAIN_TO_INTERNET, CHAIN_AUTHENTICATED, CHAIN_TRUSTED,
      CHAIN_TRUSTED_TO_ROUTER]

/-- The mentions that are looked for, each in its chain.
SOURCE: fw_iptables.c:636-670 -/
def portalMentions : TableName → List (String × String)
  | .mangle => [("PREROUTING", CHAIN_TRUSTED), ("PREROUTING", CHAIN_BLOCKED),
      ("PREROUTING", CHAIN_ALLOWED), ("PREROUTING", CHAIN_OUTGOING),
      ("POSTROUTING", CHAIN_INCOMING)]
  | .nat => [("PREROUTING", CHAIN_OUTGOING)]
  | .filter => [("INPUT", CHAIN_TO_ROUTER), ("FORWARD", CHAIN_TO_INTERNET)]

/-- One table's part of `iptables_fw_destroy`. -/
def destroyPart (fuel : ℕ) (fwQuiet : Bool) (k : TableName) : Program Bool :=
  destroyTable fuel fwQuiet k (portalMentions k) (portalChains k)

theorem destroyParts (fuel : ℕ) (fwQuiet : Bool) :
    destroyMangle fuel fwQuiet = destroyPart fuel fwQuiet .mangle ∧
      destroyNat fuel fwQuiet = destroyPart fuel fwQuiet .nat ∧
      destroyFilter fuel fwQuiet = destroyPart fuel fwQuiet .filter :=
  ⟨rfl, rfl, rfl⟩

/-- What is looked for is looked for in chains that are not the portal's, and is a chain of
the portal. -/
theorem portalMentions_mem {m : String × String} (hm : m ∈ portalMentions k) :
    m.1 ∉ portalChains k ∧ m.2 ∈ portalChains k := by
  revert m
  cases k <;> decide

/-! ## The machine -/

/-- A machine that lets every `iptables` command pass. -/
def Obliging (out : Outside) : Prop := ∀ n cmd, out.status n (.iptables cmd) = 0

/-- The lines of `iptables -L --line-numbers -v`: each starts with the rule's number, and
the line of a jump shows the chain it jumps to. -/
structure Listing (out : Outside) : Prop where
  number : ∀ n num r, ∃ rest, out.line n num r = Nat.toDigits 10 num ++ ' ' :: rest
  jump : ∀ n num r d, r.target = .jump d → strstr (out.line n num r) d.toList = true

/-- Tables of somebody else: no chain of the portal, and no rule whose line mentions one. -/
structure Foreign (out : Outside) (ts : Tables) : Prop where
  chains : ∀ k, ∀ c ∈ portalChains k, c ∉ (ts k).names
  lines : ∀ k c rs, (ts k).rules c = some rs → ∀ r ∈ rs, ∀ d ∈ portalChains k, ∀ n num,
    strstr (out.line n num r) d.toList = false

/-- The jumps of a part of the mentions are still there. -/
abbrev Mentioned (ms : List (String × String)) : String → String → Prop := fun c d => (c, d) ∈ ms

/-- A table of the portal's router: an overlay whose jumps are among the given mentions, and
among the first three rules. -/
abbrev PortalTable (k : TableName) (ms : List (String × String)) (base t : Netfilter.Table Match
    Verdict Extension) : Prop :=
  Overlay (portalChains k) (Mentioned ms) 3 base t

/-- INTERNAL: tables of somebody else are an overlay over themselves. -/
theorem Foreign.overlay {ts : Tables} (hlisting : Listing out) (hforeign : Foreign out ts)
    {A : String → String → Prop} {b : ℕ} (k : TableName) :
    Overlay (portalChains k) A b (ts k) (ts k) := by
  refine Overlay.refl (hforeign.chains k) fun c rs hrs r hr => ?_
  by_contra hinto
  obtain ⟨d, hd, htarget⟩ := Rule.jumpsInto_iff.mp (by simpa using hinto)
  have hno := hforeign.lines k c rs hrs r hr d hd 0 0
  rw [hlisting.jump 0 0 r d htarget] at hno
  cases hno

/-- INTERNAL: a command on a machine that lets it pass.
SOURCE: fw_iptables.c:154-188 -/
theorem tables_of_obliging {cmd : IptablesCommand} (hout : ∀ n, out.status n (.iptables cmd) = 0)
    (fwQuiet : Bool) (h : Host) :
    (runOn out (iptablesDoCommand fwQuiet cmd) h).2.tables =
      (iptables cmd h.tables).getD h.tables := by
  cases hts : iptables cmd h.tables with
  | none =>
    rcases iptablesDoCommand_cases out fwQuiet cmd h with ⟨-, hsome, -⟩ | ⟨-, hsame, -⟩
    · rw [hts] at hsome
      cases hsome
    · exact hsame
  | some ts =>
    have hzero : (runOn out (executeRetrying cmd 4) h).1 = 0 := by
      have honce : (runOn out (execute (.iptables cmd)) h).1 = 0 := by
        simp [execute, Host.answer, hout h.time, hts]
      simp only [runOn, executeRetrying, Prog.run_bind] at honce ⊢
      rw [honce]
      rfl
    rcases iptablesDoCommand_cases out fwQuiet cmd h with ⟨-, hsome, -⟩ | ⟨hne, -⟩
    · rw [hts, Option.some.injEq] at hsome
      exact hsome.symm
    · refine absurd ?_ hne
      simpa only [runOn, iptablesDoCommand, Prog.run_bind, Prog.pure_eq, Prog.run_done] using hzero

/-- A command that mentions no rule is its edit of the table, where that is possible. -/
theorem iptables_ruleless {op : IptablesOp} (hop : op.rule = none) (ts : Tables) :
    (iptables ⟨k, op⟩ ts).getD ts = Function.update ts k (Op.attempt op (ts k)) := by
  have hmap : op.mapRule readRule = op := by
    cases op <;> first | rfl | cases hop
  have hread : iptables ⟨k, op⟩ ts = (op.apply (ts k)).map fun t => Function.update ts k t := by
    simp only [iptables, hop, Option.all_none, if_true, Cmd.mapRule, Cmd.apply, hmap]
  rw [hread, Op.attempt]
  cases op.apply (ts k) <;> simp

/-- INTERNAL: edits of one table that mention no rule. -/
theorem tables_of_attempts (hout : Obliging out) {ops : List IptablesOp}
    (hops : ∀ op ∈ ops, op.rule = none) (h : Host) :
    (runOn out (iptablesDoCommands fwQuiet (ops.map fun op => ⟨k, op⟩)) h).2.tables =
      Function.update h.tables k (ops.foldl (fun t op => Op.attempt op t) (h.tables k)) := by
  unfold iptablesDoCommands
  generalize (0 : BitVec 32) = rc
  induction ops generalizing rc h with
  | nil => simp
  | cons op ops ih =>
    have hone := tables_of_obliging (fun n => hout n ⟨k, op⟩) fwQuiet h
    have hattempt : (runOn out (iptablesDoCommand fwQuiet ⟨k, op⟩) h).2.tables =
        Function.update h.tables k (Op.attempt op (h.tables k)) :=
      hone.trans (iptables_ruleless (hops op (by simp)) h.tables)
    simp only [runOn, List.map_cons, List.foldlM_cons, Prog.run_bind, Prog.pure_eq,
      Prog.run_done] at hattempt ih ⊢
    rw [ih (fun op hop => hops op (List.mem_cons_of_mem _ hop)), hattempt]
    simp

/-! ## The loop over a listing -/

/-- INTERNAL: a listed rule is found exactly when its line shows the word. -/
theorem mentionedRule_eq_none (hlisting : Listing out) (n num : ℕ) (r : IptablesRule)
    (d : String) :
    mentionedRule d (out.line n num r) = none ↔ strstr (out.line n num r) d.toList = false := by
  obtain ⟨rest, hline⟩ := hlisting.number n num r
  obtain ⟨a, w, hw⟩ := List.exists_cons_of_ne_nil (Nat.toDigits_ne_nil (n := num) (b := 10))
  have ha : a.isDigit = true := by
    refine Nat.isDigit_of_mem_toDigits (b := 10) (by decide) (by decide) (n := num) ?_
    rw [hw]
    exact List.mem_cons_self
  have hset : (set 9 Char.isDigit (out.line n num r)).isSome = true := by
    rw [hline, hw]
    simp [Scan.set, ha]
  unfold mentionedRule
  cases strstr (out.line n num r) d.toList with
  | false => simp
  | true =>
    obtain ⟨read, hread⟩ := Option.isSome_iff_exists.mp hset
    simp [hread]

/-- INTERNAL: the number read is the rule's, where it has one digit.
SOURCE: fw_iptables.c:718-720 -/
theorem mentionedRule_number (hlisting : Listing out) {n num rulenum : ℕ} {r : IptablesRule}
    {d : String} (hnum : num < 10) (h : mentionedRule d (out.line n num r) = some rulenum) :
    rulenum = num := by
  obtain ⟨rest, hline⟩ := hlisting.number n num r
  have hset : set 9 Char.isDigit (out.line n num r) =
      some (Nat.toDigits 10 num, ' ' :: rest) := by
    rw [hline]
    refine set_append Nat.toDigits_ne_nil ?_ (fun c hc => Nat.isDigit_of_mem_toDigits
      (by decide) (by decide) hc) (Or.inr ?_)
    · rw [Nat.toDigits_of_lt_base hnum]
      simp
    · rintro c s ⟨⟩
      rfl
  unfold mentionedRule at h
  split at h
  · rw [hset, Option.map_some, Option.some.injEq, Nat.ofDigitChars_ten_toDigits] at h
    exact h.symm
  · cases h

variable {base : Tables} {ms : List (String × String)} {h : Host}

/-- The lines of a chain. -/
def listing (out : Outside) (h : Host) (k : TableName) (c : String) : List Text :=
  (((h.tables k).rules c).getD []).mapIdx fun i r => out.line h.time (i + 1) r

theorem mem_listing {rs : List IptablesRule} {c : String} {line : Text}
    (hrs : (h.tables k).rules c = some rs) :
    line ∈ listing out h k c ↔ ∃ i r, rs[i]? = some r ∧ line = out.line h.time (i + 1) r := by
  simp only [listing, hrs, Option.getD_some, List.mem_mapIdx]
  constructor
  · rintro ⟨i, hi, rfl⟩
    exact ⟨i, rs[i], List.getElem?_eq_getElem hi, rfl⟩
  · rintro ⟨i, r, hi, rfl⟩
    obtain ⟨hlt, rfl⟩ := List.getElem?_eq_some_iff.mp hi
    exact ⟨i, hlt, rfl⟩

/-- INTERNAL: when no line is found, no jump of the mention is left.
SOURCE: fw_iptables.c:715-729 -/
theorem restrict_of_not_found (hlisting : Listing out) {c d : String}
    (hover : PortalTable k ms (base k) (h.tables k))
    (hfind : (listing out h k c).findSome? (mentionedRule d) = none) :
    PortalTable k (ms.filter (· ≠ (c, d))) (base k) (h.tables k) := by
  refine hover.restrict fun e rs hrs _ r hr _ d' htarget hmem => ?_
  refine List.mem_filter.mpr ⟨hmem, ?_⟩
  rw [decide_eq_true_eq]
  rintro ⟨⟩
  obtain ⟨i, hi⟩ := List.mem_iff_getElem?.mp hr
  have hnone := List.findSome?_eq_none_iff.mp hfind (out.line h.time (i + 1) r)
    ((mem_listing hrs).mpr ⟨i, r, hi, rfl⟩)
  rw [mentionedRule_eq_none hlisting, hlisting.jump _ _ _ _ htarget] at hnone
  cases hnone

/-- INTERNAL: a rule that is found is a jump of the portal, and its number is read right.
SOURCE: fw_iptables.c:715-729 -/
theorem jump_of_found (hlisting : Listing out) (hforeign : Foreign out base) {c d : String}
    (hc : c ∉ portalChains k) (hd : d ∈ portalChains k)
    (hover : PortalTable k ms (base k) (h.tables k)) {rulenum : ℕ}
    (hfind : (listing out h k c).findSome? (mentionedRule d) = some rulenum) :
    ∃ rs r, (h.tables k).rules c = some rs ∧ rs[rulenum - 1]? = some r ∧
      r.jumpsInto (portalChains k) = true := by
  obtain ⟨line, hline, hmention⟩ := List.exists_of_findSome?_eq_some hfind
  cases hrs : (h.tables k).rules c with
  | none => simp [listing, hrs] at hline
  | some rs =>
    obtain ⟨i, r, hi, rfl⟩ := (mem_listing hrs).mp hline
    cases hbase : (base k).rules c with
    | none =>
      rw [hover.rules_eq_none hc hbase] at hrs
      cases hrs
    | some rs₀ =>
      obtain ⟨rs', hrs', hlaid⟩ := hover.laid c rs₀ hbase
      cases hrs.symm.trans hrs'
      have hinto : r.jumpsInto (portalChains k) = true := by
        by_contra hnot
        have hr : r ∈ rs₀ := hlaid.mem_base (List.mem_of_getElem? hi) (by simpa using hnot)
        have hno := hforeign.lines k c rs₀ hbase r hr d hd h.time (i + 1)
        rw [(mentionedRule_eq_none hlisting _ _ _ _).mpr hno] at hmention
        cases hmention
      have hlt := (hlaid.placed i r hi hinto).1
      have hnum := mentionedRule_number hlisting (by omega) hmention
      refine ⟨rs, r, rfl, ?_, hinto⟩
      rw [hnum]
      exact hi

/-- INTERNAL: one round of the recursion.
SOURCE: fw_iptables.c:707-741 -/
theorem run_destroyMention_succ (c d : String) (fuel : ℕ) (h : Host) :
    runOn out (iptablesFwDestroyMention fwQuiet k c d (fuel + 1)) h =
      match (listing out h k c).findSome? (mentionedRule d) with
      | none => (some (-1), h)
      | some rulenum =>
        let h' := (runOn out (iptablesDoCommand fwQuiet ⟨k, .deleteNum c (rulenum - 1)⟩) h).2
        let rest := runOn out (iptablesFwDestroyMention fwQuiet k c d fuel) h'
        (rest.1.map fun _ => 0, rest.2) := by
  simp only [runOn, iptablesFwDestroyMention, Prog.run_bind, Prog.run_question]
  have hlist : Host.answer out (.list k c) h = (listing out h k c, h) := rfl
  rw [hlist]
  cases (listing out h k c).findSome? (mentionedRule d) with
  | none => rfl
  | some rulenum => simp

/-- INTERNAL: **`iptables_fw_destroy_mention`** deletes the jumps of one mention and nothing
else, and returns.
SOURCE: fw_iptables.c:692-742 -/
theorem destroyMention_run (hlisting : Listing out) (hout : Obliging out)
    (hforeign : Foreign out base) {c d : String} (hc : c ∉ portalChains k)
    (hd : d ∈ portalChains k) {fuel : ℕ}
    (hover : PortalTable k ms (base k) (h.tables k))
    (hfuel : (((h.tables k).rules c).getD []).countP (Rule.jumpsInto (portalChains k)) < fuel) :
    ∃ t, (runOn out (iptablesFwDestroyMention fwQuiet k c d fuel) h).1.isSome = true ∧
      (runOn out (iptablesFwDestroyMention fwQuiet k c d fuel) h).2.tables =
        Function.update h.tables k t ∧
      PortalTable k (ms.filter (· ≠ (c, d))) (base k) t := by
  induction fuel generalizing h with
  | zero => exact absurd hfuel (Nat.not_lt_zero _)
  | succ fuel ih =>
    rw [run_destroyMention_succ]
    cases hfind : (listing out h k c).findSome? (mentionedRule d) with
    | none =>
      exact ⟨h.tables k, rfl, (Function.update_eq_self k h.tables).symm,
        restrict_of_not_found hlisting hover hfind⟩
    | some rulenum =>
      obtain ⟨rs, r, hrs, hi, hinto⟩ := jump_of_found hlisting hforeign hc hd hover hfind
      obtain ⟨happly, hover'⟩ := hover.deleteNum hrs hi hinto
      have htables := tables_of_obliging
        (fun n => hout n ⟨k, .deleteNum c (rulenum - 1)⟩) fwQuiet h
      have hiptables : iptables ⟨k, .deleteNum c (rulenum - 1)⟩ h.tables =
          some (Function.update h.tables k ((h.tables k).set c (rs.eraseIdx (rulenum - 1)))) := by
        simp only [iptables, Op.rule, Option.all_none, if_true, Cmd.mapRule, Op.mapRule, Cmd.apply,
          happly, Option.map_some]
      rw [hiptables, Option.getD_some] at htables
      dsimp only
      generalize (runOn out (iptablesDoCommand fwQuiet ⟨k, .deleteNum c (rulenum - 1)⟩) h).2 = h'
        at htables
      -- one jump fewer is left
      have hcount : (((h'.tables k).rules c).getD []).countP
          (Rule.jumpsInto (portalChains k)) < fuel := by
        have hless : (rs.eraseIdx (rulenum - 1)).countP (Rule.jumpsInto (portalChains k)) + 1 =
            rs.countP (Rule.jumpsInto (portalChains k)) := by
          obtain ⟨hlt, hr⟩ := List.getElem?_eq_some_iff.mp hi
          rw [← (List.getElem_cons_eraseIdx_perm hlt).countP_eq, List.countP_cons, hr, hinto,
            if_pos rfl]
        rw [hrs, Option.getD_some] at hfuel
        rw [htables, Function.update_self, Table.rules_set]
        simp only [if_true, hrs, Option.map_some, Option.getD_some]
        omega
      obtain ⟨t, hsome, hend, hresult⟩ := ih (h := h') (by rwa [htables, Function.update_self])
        hcount
      refine ⟨t, ?_, ?_, hresult⟩
      · simpa using hsome
      · rw [hend, htables]
        simp

/-! ## The whole of it -/

/-- INTERNAL: at most three jumps stand in a chain.
SOURCE: fw_iptables.c:374-376 -/
theorem countP_le_three {c : String} (hc : c ∉ portalChains k) {t : Netfilter.Table Match Verdict
    Extension} (hover : PortalTable k ms (base k) t) :
    ((t.rules c).getD []).countP (Rule.jumpsInto (portalChains k)) ≤ 3 := by
  cases hbase : (base k).rules c with
  | none =>
    rw [hover.rules_eq_none hc hbase]
    exact Nat.zero_le 3
  | some rs₀ =>
    obtain ⟨rs, hrs, hlaid⟩ := hover.laid c rs₀ hbase
    rw [hrs]
    exact hlaid.count_le

/-- INTERNAL: the mentions of one table, one after the other. -/
theorem destroyMentions_run (hlisting : Listing out) (hout : Obliging out)
    (hforeign : Foreign out base) {fuel : ℕ} (hfuel : 3 < fuel) {todo : List (String × String)}
    (htodo : ∀ m ∈ todo, m ∈ portalMentions k) (hover : PortalTable k ms (base k) (h.tables k)) :
    ∃ t, (runOn out (destroyMentions fuel fwQuiet k todo) h).1 = true ∧
      (runOn out (destroyMentions fuel fwQuiet k todo) h).2.tables =
        Function.update h.tables k t ∧
      PortalTable k (ms.filter (· ∉ todo)) (base k) t := by
  induction todo generalizing h ms with
  | nil => exact ⟨h.tables k, rfl, (Function.update_eq_self k h.tables).symm, by simpa using hover⟩
  | cons m todo ih =>
    obtain ⟨c, d⟩ := m
    obtain ⟨hc, hd⟩ := portalMentions_mem (htodo (c, d) (by simp))
    obtain ⟨t, hsome, hend, hresult⟩ := destroyMention_run hlisting hout
      hforeign hc hd hover (Nat.lt_of_le_of_lt (countP_le_three hc hover) hfuel)
    simp only [runOn, destroyMentions, Prog.run_bind] at hsome hend ih ⊢
    rw [hsome, if_pos rfl]
    generalize (Prog.run (Host.answer out) (iptablesFwDestroyMention fwQuiet k c d fuel) h).2 = h'
      at hend
    obtain ⟨t', hdone, hend', hresult'⟩ := ih (h := h')
      (fun m hm => htodo m (List.mem_cons_of_mem _ hm)) (by rwa [hend, Function.update_self])
    refine ⟨t', hdone, ?_, ?_⟩
    · rw [hend', hend]
      simp
    · refine hresult'.restrict fun _ _ _ _ _ _ _ _ _ hmem => ?_
      simp only [Mentioned, List.mem_filter, List.mem_cons, not_or, decide_eq_true_eq] at hmem ⊢
      exact ⟨hmem.1.1, hmem.1.2, hmem.2⟩

/-- INTERNAL: one table's part leaves the table that was there.
SOURCE: fw_iptables.c:636-681 -/
theorem destroyPart_run (hlisting : Listing out) (hout : Obliging out)
    (hforeign : Foreign out base) {fuel : ℕ} (hfuel : 3 < fuel)
    (hover : PortalTable k (portalMentions k) (base k) (h.tables k)) :
    (runOn out (destroyPart fuel fwQuiet k) h).1 = true ∧
      (runOn out (destroyPart fuel fwQuiet k) h).2.tables =
        Function.update h.tables k (base k) := by
  obtain ⟨t, hdone, hend, hresult⟩ := destroyMentions_run hlisting hout
    hforeign hfuel (fun m hm => hm) hover
  simp only [runOn, destroyPart, destroyTable, Prog.run_bind] at hdone hend ⊢
  rw [hdone, if_pos rfl]
  generalize (Prog.run (Host.answer out)
    (destroyMentions fuel fwQuiet k (portalMentions k)) h).2 = h' at hend
  have hnone : Overlay (portalChains k) (fun _ _ => False) 3 (base k) t := by
    refine hresult.restrict fun _ _ _ _ _ _ _ _ _ hmem => ?_
    simp [Mentioned] at hmem
  have hattempts := @tables_of_attempts out fwQuiet k hout
    ((portalChains k).map Op.flush ++ (portalChains k).map Op.deleteChain)
    (fun op hop => by
      rcases List.mem_append.mp hop with hop | hop <;>
      · obtain ⟨c, -, rfl⟩ := List.mem_map.mp hop
        rfl) h'
  rw [List.map_append, List.map_map, List.map_map] at hattempts
  simp only [Prog.run_bind, Prog.pure_eq, Prog.run_done]
  refine ⟨trivial, hattempts.trans ?_⟩
  rw [hend, Function.update_self, hnone.sweep, Function.update_idem]

/-- INTERNAL: **`iptables_fw_destroy` leaves the tables that were there** before the portal,
whatever part of the portal's chains and jumps it finds.
SOURCE: fw_iptables.c:611-684 -/
theorem destroy_restores (hlisting : Listing out) (hout : Obliging out)
    (hforeign : Foreign out base) {fuel : ℕ} (hfuel : 3 < fuel) (config : Config) (fw : Firewall)
    (hover : ∀ k, PortalTable k (portalMentions k) (base k) (h.tables k)) :
    (runOn out (iptablesFwDestroy fuel config fw) h).1.1 = true ∧
      (runOn out (iptablesFwDestroy fuel config fw) h).2.tables = base := by
  obtain ⟨hmangle, hnat, hfilter⟩ := destroyParts fuel true
  have htc : (runOn out (if config.trafficControl then tcDestroyTc config
      else pure 0 : Program (BitVec 32)) h).2.tables = h.tables := by
    refine tables_of_noIptables (P := fun _ => True) ?_ h
    split
    · exact runs_tcDoCommands fun cmd c => by simp
    · trivial
  simp only [iptablesFwDestroy, hmangle, hnat, hfilter, runOn, Prog.run_bind, Prog.pure_eq,
    Prog.run_done] at htc ⊢
  generalize (Prog.run (Host.answer out) (if config.trafficControl then tcDestroyTc config
    else .done 0 : Program (BitVec 32)) h).2 = h₀ at htc
  obtain ⟨hdone₁, hend₁⟩ := destroyPart_run (k := .mangle) (h := h₀) hlisting hout
    hforeign hfuel (by rw [htc]; exact hover .mangle)
  simp only [runOn] at hdone₁ hend₁
  rw [hdone₁, if_pos rfl]
  generalize (Prog.run (Host.answer out) (destroyPart fuel true .mangle) h₀).2 = h₁ at hend₁
  obtain ⟨hdone₂, hend₂⟩ := destroyPart_run (k := .nat) (h := h₁) hlisting hout
    hforeign hfuel (by rw [hend₁, htc]; exact hover .nat)
  simp only [runOn] at hdone₂ hend₂
  rw [hdone₂, if_pos rfl]
  generalize (Prog.run (Host.answer out) (destroyPart fuel true .nat) h₁).2 = h₂ at hend₂
  obtain ⟨hdone₃, hend₃⟩ := destroyPart_run (k := .filter) (h := h₂) hlisting hout
    hforeign hfuel (by rw [hend₂, hend₁, htc]; exact hover .filter)
  refine ⟨hdone₃, hend₃.trans ?_⟩
  rw [hend₂, hend₁]
  funext k
  cases k <;> rfl

end WifiCat.Analysis
