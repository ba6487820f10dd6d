import WifiCat.Analysis.Destroy

/-!
# The removal of the rules that mention a word

`iptables_fw_destroy_mention` lists a chain, tries to delete the first rule whose line mentions
the word, and calls itself again when it has tried.  A call that fails leaves the rule where it
was, so it returns if and only if enough deletions succeed (`destroy_mention_iff`); then the
chain is left without the rules that mention the word (`chain_of_returned`).
-/

set_option autoImplicit false

namespace WifiCat.Analysis

open CommandProgram Scan Prog

/-! ## Listed chains -/

/-- A word that is looked for; the names of the portal's chains start with a letter.
SOURCE: fw_iptables.c:636-670 -/
structure Mention where
  word : String
  letter : ∀ c, word.toList.head? = some c → c.isDigit = false

/-- A rule as it is listed: what stands behind its number at each time, the counters change.
Whether the word is mentioned does not change. -/
structure ChainRule (mention : Mention) where
  text : ℕ → Text
  blank : ∀ n, (text n).head? = some ' '
  steady : ∀ n, strstr (text n) mention.word.toList = strstr (text 0) mention.word.toList

variable {mention : Mention}

/-- The rule's line at a time, with a number. -/
def ChainRule.line (r : ChainRule mention) (n num : ℕ) : Text := Nat.toDigits 10 num ++ r.text n

/-- The rule's line mentions the word. -/
def ChainRule.mentions (r : ChainRule mention) : Bool :=
  strstr (r.line 0 0) mention.word.toList

/-- A chain: its rules have numbers of at most nine digits. -/
structure ListedChain (mention : Mention) where
  rules : List (ChainRule mention)
  few : rules.length < 10 ^ 9

/-- INTERNAL: the number before a line mentions no word that starts with a letter. -/
theorem strstr_digits_append {ds : Text} (hds : ∀ c ∈ ds, c.isDigit = true) (t : Text) :
    strstr (ds ++ t) mention.word.toList = strstr t mention.word.toList := by
  have hletter := mention.letter
  unfold strstr
  refine decide_eq_decide.mpr ⟨?_, fun h => h.trans (List.suffix_append ds t).isInfix⟩
  rintro ⟨before, behind, hcut⟩
  rw [List.append_assoc] at hcut
  rcases List.append_eq_append_iff.mp hcut with ⟨inside, rfl, hrest⟩ | ⟨skipped, rfl, hrest⟩
  · -- the word would start inside the number
    cases hword : mention.word.toList with
    | nil => exact List.nil_infix
    | cons c word =>
      cases inside with
      | nil =>
        rw [List.nil_append, hword] at hrest
        exact ⟨[], behind, hrest⟩
      | cons d inside =>
        rw [hword] at hrest
        obtain ⟨rfl, -⟩ := List.cons.inj hrest
        have hdigit := hds c (by simp)
        rw [hletter c (by rw [hword]; rfl)] at hdigit
        cases hdigit
  · exact ⟨skipped, behind, by rw [List.append_assoc]; exact hrest.symm⟩

theorem isDigit_toDigits {num : ℕ} : ∀ c ∈ Nat.toDigits 10 num, c.isDigit = true := fun c hc =>
  Nat.isDigit_of_mem_toDigits (by decide) (by decide) hc

theorem strstr_line (r : ChainRule mention) (n num : ℕ) :
    strstr (r.line n num) mention.word.toList = r.mentions := by
  unfold ChainRule.mentions ChainRule.line
  rw [strstr_digits_append isDigit_toDigits, strstr_digits_append isDigit_toDigits]
  exact r.steady n

/-- INTERNAL: of a line that mentions the word the number is read, of another one nothing.
SOURCE: fw_iptables.c:718-720 -/
theorem mentionedRule_line (r : ChainRule mention) (n : ℕ) {num : ℕ} (hnum : num < 10 ^ 9) :
    mentionedRule mention.word (r.line n num) = if r.mentions then some num else none := by
  obtain ⟨rest, hrest⟩ : ∃ rest, r.text n = ' ' :: rest := by
    cases htext : r.text n with
    | nil =>
      have hblank := r.blank n
      rw [htext] at hblank
      cases hblank
    | cons c rest =>
      have hblank := r.blank n
      rw [htext] at hblank
      exact ⟨rest, by rw [Option.some.inj hblank]⟩
  have hset : set 9 Char.isDigit (r.line n num) = some (Nat.toDigits 10 num, ' ' :: rest) := by
    rw [ChainRule.line, hrest]
    refine set_append Nat.toDigits_ne_nil ?_ isDigit_toDigits (Or.inr ?_)
    · exact (Nat.length_toDigits_le_iff (by decide) (by decide)).mpr hnum
    · rintro c s ⟨⟩
      rfl
  unfold mentionedRule
  rw [strstr_line, hset]
  cases r.mentions with
  | false => rfl
  | true => simp [Nat.ofDigitChars_ten_toDigits]

/-- INTERNAL: what is found in a listing is the number of the first rule that mentions the word.
SOURCE: fw_iptables.c:715-729 -/
theorem findSome_lines (n : ℕ) {rules : List (ChainRule mention)} {k : ℕ}
    (hfew : k + rules.length < 10 ^ 9) :
    (rules.mapIdx fun i r => r.line n (k + i + 1)).findSome? (mentionedRule mention.word) =
      (rules.findIdx? ChainRule.mentions).map fun i => k + i + 1 := by
  induction rules generalizing k with
  | nil => rfl
  | cons r rules ih =>
    rw [List.length_cons] at hfew
    have hrest := ih (k := k + 1) (by omega)
    have hshift : (fun i r => ChainRule.line r n (k + (i + 1) + 1) : ℕ → ChainRule mention → Text) =
        fun i r => r.line n (k + 1 + i + 1) := by
      funext i r
      rw [show k + (i + 1) + 1 = k + 1 + i + 1 by omega]
    rw [List.mapIdx_cons, List.findSome?_cons, mentionedRule_line r n (by omega), List.findIdx?_cons]
    cases r.mentions with
    | true => simp
    | false =>
      simp only [Bool.false_eq_true, if_false, hshift, hrest, Option.map_map]
      congr 1
      funext i
      simp only [Function.comp_apply]
      omega

/-! ## The machine -/

/-- A machine with the chain: the commands given so far, and the listings made. -/
structure ChainHost (mention : Mention) where
  rules : List (ChainRule mention)
  tried : ℕ := 0
  listed : ℕ := 0

/-- What it answers: a deletion takes the rule away when its status is 0, and changes nothing
otherwise. -/
def ChainHost.answer (status : ℕ → BitVec 32) (table : TableName) (chain : String) :
    (e : Event) → ChainHost mention → e.Answer × ChainHost mention
  | .execute cmd, h =>
    let rules := match cmd with
      | .iptables ⟨t, .deleteNum c i⟩ =>
        if status h.tried = 0 ∧ t = table ∧ c = chain then h.rules.eraseIdx i else h.rules
      | _ => h.rules
    (status h.tried, { h with rules := rules, tried := h.tried + 1 })
  | .logStatus _ _, h => ((), h)
  | .list t c, h =>
    let lines := if t = table ∧ c = chain then h.rules.mapIdx fun i r => r.line h.listed (i + 1)
      else []
    (lines, { h with listed := h.listed + 1 })

/-- How many of the first `n` commands have succeeded. -/
def successes (status : ℕ → BitVec 32) (n : ℕ) : ℕ :=
  (List.range n).countP fun i => decide (status i = 0)

theorem successes_succ (status : ℕ → BitVec 32) (n : ℕ) :
    successes status (n + 1) = successes status n + if status n = 0 then 1 else 0 := by
  rw [successes, List.range_succ, List.countP_append, successes, List.countP_singleton]
  simp

theorem successes_mono (status : ℕ → BitVec 32) {m n : ℕ} (h : m ≤ n) :
    successes status m ≤ successes status n := by
  induction h with
  | refl => exact le_rfl
  | step _ ih => exact ih.trans (by rw [successes_succ]; exact Nat.le_add_right _ _)

/-- A deletion, however often it is tried: some commands were given, of which the last one may
have succeeded. -/
structure Attempted (status : ℕ → BitVec 32) (i : ℕ) (h h' : ChainHost mention) : Prop where
  tried : h.tried < h'.tried
  listed : h'.listed = h.listed
  rules : (h'.rules = h.rules ∧ successes status h'.tried = successes status h.tried) ∨
    (h'.rules = h.rules.eraseIdx i ∧
      successes status h'.tried = successes status h.tried + 1)

variable (status : ℕ → BitVec 32) (table : TableName) (chain : String)

/-- INTERNAL: one attempt.
SOURCE: fw_iptables.c:172-180 -/
theorem attempted_execute (i : ℕ) (h : ChainHost mention) :
    Attempted status i h (ChainHost.answer status table chain
      (.execute (.iptables ⟨table, .deleteNum chain i⟩)) h).2 := by
  refine ⟨Nat.lt_succ_self _, rfl, ?_⟩
  simp only [ChainHost.answer, and_self, and_true, successes_succ]
  by_cases hzero : status h.tried = 0
  · exact Or.inr ⟨if_pos hzero, by rw [if_pos hzero]⟩
  · exact Or.inl ⟨if_neg hzero, by rw [if_neg hzero]; rfl⟩

/-- INTERNAL: the attempts of `iptables_do_command`; only a failed one is followed by another.
SOURCE: fw_iptables.c:154-188 -/
theorem attempted_iptablesDoCommand (fwQuiet : Bool) (i : ℕ) (h : ChainHost mention) :
    Attempted status i h (run (ChainHost.answer status table chain)
      (iptablesDoCommand fwQuiet ⟨table, .deleteNum chain i⟩) h).2 := by
  have hretry : ∀ (n : ℕ) (h : ChainHost mention), Attempted status i h
      (run (ChainHost.answer status table chain)
        (executeRetrying ⟨table, .deleteNum chain i⟩ n) h).2 := by
    intro n
    induction n with
    | zero => exact fun h => attempted_execute status table chain i h
    | succ n ih =>
      intro h
      have hfirst := attempted_execute status table chain i h
      have hrc : (run (ChainHost.answer status table chain)
          (execute (.iptables ⟨table, .deleteNum chain i⟩)) h).1 = status h.tried := rfl
      rw [executeRetrying, run_bind, hrc]
      by_cases hfour : status h.tried = 4
      · rw [if_pos hfour]
        have hrest := ih (ChainHost.answer status table chain
          (.execute (.iptables ⟨table, .deleteNum chain i⟩)) h).2
        have hne : status h.tried ≠ 0 := by rw [hfour]; decide
        have hsame : (ChainHost.answer status table chain
            (.execute (.iptables ⟨table, .deleteNum chain i⟩)) h).2 =
              { h with tried := h.tried + 1 } := by
          simp only [ChainHost.answer, hne, false_and, if_false]
        have hcount : successes status (h.tried + 1) = successes status h.tried := by
          rw [successes_succ, if_neg hne, Nat.add_zero]
        rw [hsame] at hrest
        obtain ⟨htried, hlisted, hrules⟩ := hrest
        dsimp only at htried hlisted hrules
        rw [hcount] at hrules
        change Attempted status i h (run (ChainHost.answer status table chain)
          (executeRetrying ⟨table, .deleteNum chain i⟩ n) (ChainHost.answer status table chain
            (.execute (.iptables ⟨table, .deleteNum chain i⟩)) h).2).2
        rw [hsame]
        exact ⟨by omega, hlisted, hrules⟩
      · rw [if_neg hfour]
        exact hfirst
  have hlog : ∀ (rc : BitVec 32) (h : ChainHost mention),
      (run (ChainHost.answer status table chain) (if !fwQuiet && rc != 0 then
        Prog.question (Event.logStatus rc ⟨table, .deleteNum chain i⟩)
        else pure () : Program Unit) h).2 = h := by
    intro rc h
    split <;> rfl
  simp only [iptablesDoCommand, run_bind]
  change Attempted status i h (run _ (if _ then _ else _ : Program Unit) _).2
  rw [hlog]
  exact hretry 4 h

/-! ## The recursion -/

/-- The run of `iptables_fw_destroy_mention` on such a machine, to the given depth. -/
def destroyRun (status : ℕ → BitVec 32) (fwQuiet : Bool) (table : TableName) (chain : String)
    (fuel : ℕ) (h : ChainHost mention) : Option (BitVec 32) × ChainHost mention :=
  run (ChainHost.answer status table chain)
    (iptablesFwDestroyMention fwQuiet table chain mention.word fuel) h

/-- INTERNAL: a call: it returns when no rule mentions the word, and otherwise tries to delete the
first one that does and calls itself.
SOURCE: fw_iptables.c:707-741 -/
theorem destroyRun_succ (fwQuiet : Bool) (fuel : ℕ) {h : ChainHost mention}
    (hfew : h.rules.length < 10 ^ 9) :
    (h.rules.countP ChainRule.mentions = 0 ∧
        (destroyRun status fwQuiet table chain (fuel + 1) h).1 = some (-1) ∧
        (destroyRun status fwQuiet table chain (fuel + 1) h).2.rules = h.rules ∧
        (destroyRun status fwQuiet table chain (fuel + 1) h).2.tried = h.tried) ∨
      ∃ h' : ChainHost mention, h.tried < h'.tried ∧
        ((h'.rules = h.rules ∧ successes status h'.tried = successes status h.tried) ∨
          (h'.rules = h.rules.eraseP ChainRule.mentions ∧
            successes status h'.tried = successes status h.tried + 1)) ∧
        0 < h.rules.countP ChainRule.mentions ∧
        destroyRun status fwQuiet table chain (fuel + 1) h =
          ((destroyRun status fwQuiet table chain fuel h').1.map fun _ => 0,
            (destroyRun status fwQuiet table chain fuel h').2) := by
  have hlist : ChainHost.answer status table chain (.list table chain) h =
      (h.rules.mapIdx fun i r => r.line h.listed (i + 1), { h with listed := h.listed + 1 }) := by
    simp only [ChainHost.answer, and_self, if_true]
  have hfind := findSome_lines (k := 0) h.listed (by rwa [Nat.zero_add])
  simp only [Nat.zero_add] at hfind
  unfold destroyRun
  simp only [iptablesFwDestroyMention, run_bind, run_question]
  rw [hlist]
  dsimp only
  rw [hfind]
  cases hindex : h.rules.findIdx? ChainRule.mentions with
  | none =>
    refine Or.inl ⟨?_, rfl, rfl, rfl⟩
    rw [List.countP_eq_zero]
    intro r hr
    have hno := List.findIdx?_eq_none_iff.mp hindex r hr
    simp [hno]
  | some i =>
    have hattempt := attempted_iptablesDoCommand status table chain fwQuiet i { h with listed := h.listed + 1 }
    have herase : h.rules.eraseP ChainRule.mentions = h.rules.eraseIdx i := by
      rw [List.eraseP_eq_eraseIdx, hindex]
    refine Or.inr ⟨_, hattempt.tried, ?_, ?_, ?_⟩
    · rw [herase]
      exact hattempt.rules
    · obtain ⟨hlt, hmentions, -⟩ := List.findIdx?_eq_some_iff_getElem.mp hindex
      exact List.countP_pos_iff.mpr ⟨_, List.getElem_mem hlt, hmentions⟩
    · simp

variable {status table chain}

theorem countP_eraseP_mentions {rules : List (ChainRule mention)}
    (hpos : 0 < rules.countP ChainRule.mentions) :
    (rules.eraseP ChainRule.mentions).countP ChainRule.mentions + 1 =
      rules.countP ChainRule.mentions := by
  obtain ⟨r, hr, hmentions⟩ := List.countP_pos_iff.mp hpos
  obtain ⟨a, l₁, l₂, -, ha, hl, herase⟩ := List.exists_of_eraseP hr hmentions
  rw [herase, hl]
  simp only [List.countP_append, List.countP_cons, ha, if_true]
  omega

theorem filter_eraseP_mentions (rules : List (ChainRule mention)) :
    (rules.eraseP ChainRule.mentions).filter (fun r => !r.mentions) =
      rules.filter fun r => !r.mentions := by
  by_cases hex : ∃ r ∈ rules, r.mentions = true
  · obtain ⟨r, hr, hmentions⟩ := hex
    obtain ⟨a, l₁, l₂, -, ha, hl, herase⟩ := List.exists_of_eraseP hr hmentions
    rw [herase, hl]
    simp [ha]
  · rw [List.eraseP_of_forall_not fun r hr hmentions => hex ⟨r, hr, hmentions⟩]

/-- INTERNAL: **what is left when it has returned**: the rules that do not mention the word, in
their order; as many commands have succeeded as rules were deleted.
SOURCE: fw_iptables.c:692-742 -/
theorem chain_of_returned (fwQuiet : Bool) (fuel : ℕ) {h : ChainHost mention}
    (hfew : h.rules.length < 10 ^ 9)
    (hreturns : (destroyRun status fwQuiet table chain fuel h).1.isSome) :
    (destroyRun status fwQuiet table chain fuel h).2.rules = h.rules.filter (fun r => !r.mentions) ∧
      successes status (destroyRun status fwQuiet table chain fuel h).2.tried =
        successes status h.tried + h.rules.countP ChainRule.mentions := by
  induction fuel generalizing h with
  | zero => cases hreturns
  | succ fuel ih =>
    rcases destroyRun_succ status table chain fwQuiet fuel hfew with
      ⟨hnone, -, hrules, htried⟩ | ⟨h', -, hdeleted, hpos, heq⟩
    · rw [hrules, htried, hnone]
      refine ⟨(List.filter_eq_self.mpr fun r hr => ?_).symm, rfl⟩
      have hno := List.countP_eq_zero.mp hnone r hr
      simpa using hno
    · rw [heq, Option.isSome_map] at hreturns
      rw [heq]
      rcases hdeleted with ⟨hrules, hcount⟩ | ⟨hrules, hcount⟩
      · have hend := ih (by rwa [hrules]) hreturns
        rwa [hrules, hcount] at hend
      · have hfew' : h'.rules.length < 10 ^ 9 := by
          rw [hrules]
          exact (List.length_eraseP_le).trans_lt hfew
        have hend := ih hfew' hreturns
        have hless := countP_eraseP_mentions hpos
        rw [hrules, hcount, filter_eraseP_mentions] at hend
        obtain ⟨hleft, hsuccesses⟩ := hend
        refine ⟨hleft, ?_⟩
        dsimp only
        omega

/-- INTERNAL: **it returns** when some number of commands has enough successes.
SOURCE: fw_iptables.c:692-742 -/
theorem returns_of_successes (fwQuiet : Bool) {n fuel : ℕ} {h : ChainHost mention}
    (hfew : h.rules.length < 10 ^ 9) (hfuel : max n h.tried < h.tried + fuel)
    (henough : successes status h.tried + h.rules.countP ChainRule.mentions ≤
      successes status (max n h.tried)) :
    (destroyRun status fwQuiet table chain fuel h).1.isSome := by
  induction fuel generalizing h with
  | zero => omega
  | succ fuel ih =>
    rcases destroyRun_succ status table chain fwQuiet fuel hfew with
      ⟨-, hvalue, -⟩ | ⟨h', htried, hdeleted, hpos, heq⟩
    · rw [hvalue]
      rfl
    · rw [heq, Option.isSome_map]
      -- a rule is left, so the commands that are looked at have not all been given
      have hleft : h.tried < n := by
        by_contra hall
        rw [max_eq_right (by omega)] at henough
        omega
      have hlater : successes status (max n h.tried) ≤ successes status (max n h'.tried) :=
        successes_mono status (by omega)
      have hfuel' : max n h'.tried < h'.tried + fuel := by omega
      rcases hdeleted with ⟨hrules, hcount⟩ | ⟨hrules, hcount⟩
      · exact ih (by rwa [hrules]) hfuel' (by rw [hrules, hcount]; omega)
      · have hless := countP_eraseP_mentions hpos
        refine ih ?_ hfuel' (by rw [hrules, hcount]; omega)
        rw [hrules]
        exact (List.length_eraseP_le).trans_lt hfew

/-- **The removal of a mention** returns, and leaves the other rules when all deletions succeed, if
and only if at least as many commands succeed as rules mention the word.
SOURCE: fw_iptables.c:692-742 -/
theorem destroy_mention_iff (chainRules : ListedChain mention) (status : ℕ → BitVec 32)
    (fwQuiet : Bool) (table : TableName) (chain : String) :
    ((∃ fuel, (destroyRun status fwQuiet table chain fuel ⟨chainRules.rules, 0, 0⟩).1.isSome) ∧
        ((∀ n, status n = 0) → ∃ fuel,
          (destroyRun status fwQuiet table chain fuel ⟨chainRules.rules, 0, 0⟩).1.isSome ∧
          (destroyRun status fwQuiet table chain fuel ⟨chainRules.rules, 0, 0⟩).2.rules =
            chainRules.rules.filter fun r => !r.mentions)) ↔
      ∃ n, chainRules.rules.countP ChainRule.mentions ≤ successes status n := by
  have hnone : successes status 0 = 0 := rfl
  constructor
  · rintro ⟨⟨fuel, hreturns⟩, -⟩
    obtain ⟨-, hcount⟩ := chain_of_returned fwQuiet fuel chainRules.few hreturns
    exact ⟨_, by rw [hcount]; exact Nat.le_add_left _ _⟩
  · rintro ⟨n, henough⟩
    have hreturns :
        (destroyRun status fwQuiet table chain (n + 1) ⟨chainRules.rules, 0, 0⟩).1.isSome :=
      returns_of_successes (n := n) fwQuiet chainRules.few (by simp) (by simpa [hnone] using henough)
    refine ⟨⟨n + 1, hreturns⟩, fun _ => ⟨n + 1, hreturns, ?_⟩⟩
    exact (chain_of_returned fwQuiet (n + 1) chainRules.few hreturns).1

/-- The name of the chain of outgoing traffic. -/
def outgoingMention : Mention where
  word := "ndsOUT"
  letter := by
    have hhead : "ndsOUT".toList.head? = some 'n' := by decide +kernel
    rw [hhead]
    rintro c ⟨⟩
    rfl

/-- The rule that jumps into `ndsOUT`, as it is listed. -/
def outgoingListed : ChainRule outgoingMention where
  text := fun _ => "        0     0 ndsOUT     all  --  br0    *       0.0.0.0/0  0.0.0.0/0".toList
  blank := fun _ => by decide
  steady := fun _ => rfl

/-- When every deletion fails it does not return. -/
theorem destroy_mention_loops :
    ¬∀ (mention : Mention) (chainRules : ListedChain mention) (status : ℕ → BitVec 32)
      (fwQuiet : Bool) (table : TableName) (chain : String),
      ∃ fuel, (destroyRun status fwQuiet table chain fuel ⟨chainRules.rules, 0, 0⟩).1.isSome := by
  intro hall
  let chainRules : ListedChain outgoingMention := ⟨[outgoingListed], by decide⟩
  obtain ⟨fuel, hreturns⟩ := hall _ chainRules (fun _ => 1) true .mangle "PREROUTING"
  obtain ⟨-, hcount⟩ := chain_of_returned true fuel chainRules.few hreturns
  have hnone : ∀ n, successes (fun _ => 1) n = 0 := fun n => by simp [successes]
  have hone : chainRules.rules.countP ChainRule.mentions = 1 := by decide +kernel
  rw [hnone, hnone, hone] at hcount
  omega

end WifiCat.Analysis
