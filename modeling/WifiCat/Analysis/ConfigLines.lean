import WifiCat.Model.ConfFile

/-!
# What a line of the configuration file does

`lineEffect` and `blockEffect` say what the two loops do with a line, apart from the
configuration it is done to; `readLines_cons` and `rulesetLoop_cons` are the loops in these
terms.  The fuel of `config_read`'s loop is never used up: `configReadLoop_fuel`.
-/

set_option autoImplicit false

namespace WifiCat.Analysis

open Scan

/-! ## Keywords -/

theorem configParseOpcode_congr {cp cp' : Text} (h : sameCase cp cp' = true) :
    configParseOpcode cp = configParseOpcode cp' := by
  have hkey : ∀ name, sameCase cp name = sameCase cp' name := fun name => by
    simp only [sameCase, (sameCase_iff cp cp').mp h]
  simp only [configParseOpcode, hkey]

/-- INTERNAL: an option with a single keyword is read for that keyword alone.
SOURCE: conf.c:344-357 -/
theorem configParseOpcode_iff {op : OpCode} {name : String}
    (hname : ∀ k ∈ keywords, k.2 = op → k.1 = name) (hop : configParseOpcode name.toList = op)
    (hbad : op ≠ .badOption) {cp : Text} :
    configParseOpcode cp = op ↔ sameCase cp name.toList = true := by
  constructor
  · intro h
    unfold configParseOpcode at h
    cases hfind : keywords.find? fun k => sameCase cp k.1.toList with
    | none =>
      rw [hfind] at h
      exact absurd h.symm hbad
    | some k =>
      rw [hfind] at h
      have hkey := List.find?_some hfind
      rwa [hname k (List.mem_of_find?_eq_some hfind) h] at hkey
  · intro h
    rw [configParseOpcode_congr h, hop]

theorem opcode_firewallRuleSet_iff {cp : Text} :
    configParseOpcode cp = .firewallRuleSet ↔ sameCase cp "firewallruleset".toList = true :=
  configParseOpcode_iff (by decide) (by decide +kernel) (by decide)

theorem opcode_firewallRule_iff {cp : Text} :
    configParseOpcode cp = .firewallRule ↔ sameCase cp "firewallrule".toList = true :=
  configParseOpcode_iff (by decide) (by decide +kernel) (by decide)

theorem opcode_emptyRuleSetPolicy_iff {cp : Text} :
    configParseOpcode cp = .emptyRuleSetPolicy ↔
      sameCase cp "emptyrulesetpolicy".toList = true :=
  configParseOpcode_iff (by decide) (by decide +kernel) (by decide)

/-! ## The effect of a line -/

/-- What `config_read` does with a line. -/
inductive LineEffect
  | skip
  | stop
  | block (arg : Text)
  | option (op : OpCode) (arg after : Text)
deriving DecidableEq, Repr

/-- SOURCE: conf.c:1027-1059 -/
def lineEffect (l : Line) : LineEffect :=
  let stripped := stripWhitespace l
  if stripped.1 = [] then .skip
  else
    match splitOption isSpace stripped.1 with
    | none => .stop
    | some (option, arg) =>
      if configParseOpcode option = .firewallRuleSet then .block arg
      else .option (configParseOpcode option) arg stripped.2

/-- What `parse_firewall_ruleset` does with a line. -/
inductive BlockEffect
  | skip
  | close
  | stop
  | rule (arg : Text)
deriving DecidableEq, Repr

/-- SOURCE: conf.c:490-531 -/
def blockEffect (l : Line) : BlockEffect :=
  let s := (stripWhitespace l).1
  if s = [] then .skip
  else if s.head? = some '}' then .close
  else
    match splitOption isBlank s with
    | none => .stop
    | some (option, arg) => if configParseOpcode option = .firewallRule then .rule arg else .stop

/-- INTERNAL: the loop of a block, one line at a time. -/
theorem rulesetLoop_cons (name : RulesetName) (l : Line) (ls : List Line) (c : FileConfig) :
    rulesetLoop name (l :: ls) c =
      match blockEffect l with
      | .skip => rulesetLoop name ls c
      | .close => some (ls, c)
      | .stop => none
      | .rule arg => rulesetLoop name ls (addFirewallRule name arg c) := by
  rw [rulesetLoop]
  unfold blockEffect
  dsimp only
  split
  · rfl
  · split
    · rfl
    · cases splitOption isBlank (stripWhitespace l).1 with
      | none => rfl
      | some r =>
        dsimp only
        by_cases hop : configParseOpcode r.1 = .firewallRule
        · simp only [hop, if_true]
        · simp only [if_neg hop]

/-- INTERNAL: a block leaves no more lines than it was given. -/
theorem rulesetLoop_length {name : RulesetName} {ls rest : List Line} {c c' : FileConfig}
    (h : rulesetLoop name ls c = some (rest, c')) : rest.length ≤ ls.length := by
  induction ls generalizing c with
  | nil =>
    cases h
    exact le_rfl
  | cons l ls ih =>
    rw [rulesetLoop_cons] at h
    rw [List.length_cons]
    split at h
    · exact (ih h).trans (Nat.le_succ _)
    · cases h
      exact Nat.le_succ _
    · cases h
    · exact (ih h).trans (Nat.le_succ _)

theorem parseFirewallRuleset_length {arg : Text} {ls rest : List Line} {c c' : FileConfig}
    (h : parseFirewallRuleset arg ls c = some (rest, c')) : rest.length ≤ ls.length := by
  obtain ⟨name, -, h⟩ := Option.bind_eq_some_iff.mp h
  exact rulesetLoop_length h

/-- INTERNAL: one round of `config_read`'s loop. -/
theorem configReadLoop_succ (fuel : ℕ) (l : Line) (ls : List Line) (c : FileConfig) :
    configReadLoop (fuel + 1) (l :: ls) c =
      match lineEffect l with
      | .skip => configReadLoop fuel ls c
      | .stop => none
      | .block arg =>
        (parseFirewallRuleset arg ls c).bind fun r => configReadLoop fuel r.1 r.2
      | .option op arg after => (op.apply arg after c).bind (configReadLoop fuel ls) := by
  rw [configReadLoop]
  unfold lineEffect
  dsimp only
  split
  · rfl
  · cases splitOption isSpace (stripWhitespace l).1 with
    | none => rfl
    | some r =>
      dsimp only
      by_cases hop : configParseOpcode r.1 = .firewallRuleSet
      · simp only [hop, if_true]
        rfl
      · simp only [if_neg hop]
        rfl

/-- INTERNAL: the loop ends before its fuel does.
SOURCE: conf.c:1025 -/
theorem configReadLoop_fuel {fuel : ℕ} {ls : List Line} (h : ls.length ≤ fuel) (c : FileConfig) :
    configReadLoop fuel ls c = configReadLoop ls.length ls c := by
  induction fuel using Nat.strong_induction_on generalizing ls c with
  | _ fuel ih =>
    cases ls with
    | nil => cases fuel <;> rfl
    | cons l ls =>
      obtain ⟨fuel, rfl⟩ := Nat.exists_eq_succ_of_ne_zero (Nat.ne_zero_of_lt h)
      rw [List.length_cons] at h ⊢
      have hstep : ∀ ls' : List Line, ls'.length ≤ ls.length → ∀ c,
          configReadLoop fuel ls' c = configReadLoop ls.length ls' c := by
        intro ls' hle c
        rw [ih fuel (by omega) (by omega) c, ih ls.length (by omega) hle c]
      rw [configReadLoop_succ, configReadLoop_succ]
      cases lineEffect l with
      | skip => exact hstep ls le_rfl c
      | stop => rfl
      | block arg =>
        dsimp only
        cases hblock : parseFirewallRuleset arg ls c with
        | none => rfl
        | some r => exact hstep r.1 (parseFirewallRuleset_length hblock) r.2
      | option op arg after =>
        dsimp only
        cases op.apply arg after c with
        | none => rfl
        | some c' => exact hstep ls le_rfl c'

/-- `config_read`'s loop on all lines that are left. -/
def readLines (ls : List Line) (c : FileConfig) : Option FileConfig :=
  configReadLoop ls.length ls c

/-- INTERNAL: the loop of `config_read`, one line at a time. -/
theorem readLines_cons (l : Line) (ls : List Line) (c : FileConfig) :
    readLines (l :: ls) c =
      match lineEffect l with
      | .skip => readLines ls c
      | .stop => none
      | .block arg => (parseFirewallRuleset arg ls c).bind fun r => readLines r.1 r.2
      | .option op arg after => (op.apply arg after c).bind (readLines ls) := by
  rw [readLines, List.length_cons, configReadLoop_succ]
  cases lineEffect l with
  | skip => rfl
  | stop => rfl
  | block arg =>
    dsimp only
    cases hblock : parseFirewallRuleset arg ls c with
    | none => rfl
    | some r => exact configReadLoop_fuel (parseFirewallRuleset_length hblock) r.2
  | option op arg after => rfl

/-- INTERNAL: what no rule changes, no block changes. -/
theorem rulesetLoop_keeps {P : FileConfig → Prop}
    (hrule : ∀ name arg c, P c → P (addFirewallRule name arg c)) {name : RulesetName}
    {ls rest : List Line} {c c' : FileConfig} (h : rulesetLoop name ls c = some (rest, c'))
    (hc : P c) : P c' := by
  induction ls generalizing c with
  | nil =>
    cases h
    exact hc
  | cons l ls ih =>
    rw [rulesetLoop_cons] at h
    cases heff : blockEffect l with
    | skip =>
      rw [heff] at h
      exact ih h hc
    | close =>
      rw [heff] at h
      cases h
      exact hc
    | stop =>
      rw [heff] at h
      cases h
    | rule arg =>
      rw [heff] at h
      exact ih h (hrule name arg c hc)

/-- INTERNAL: what no rule and no option changes, no file changes.
SOURCE: conf.c:1025-1354 -/
theorem readLines_keeps {P : FileConfig → Prop}
    (hrule : ∀ name arg c, P c → P (addFirewallRule name arg c))
    (hoption : ∀ (op : OpCode) arg after c c', op.apply arg after c = some c' → P c → P c')
    {ls : List Line} {c c' : FileConfig} (h : readLines ls c = some c') (hc : P c) : P c' := by
  induction hn : ls.length using Nat.strong_induction_on generalizing ls c with
  | _ n ih =>
    subst hn
    cases ls with
    | nil =>
      cases h
      exact hc
    | cons l ls =>
      rw [readLines_cons] at h
      cases heff : lineEffect l with
      | skip =>
        rw [heff] at h
        exact ih ls.length (by simp) h hc rfl
      | stop =>
        rw [heff] at h
        cases h
      | block arg =>
        rw [heff] at h
        obtain ⟨⟨rest, c₁⟩, hblock, hrest⟩ := Option.bind_eq_some_iff.mp h
        have hlength := parseFirewallRuleset_length hblock
        obtain ⟨name, -, hloop⟩ := Option.bind_eq_some_iff.mp hblock
        exact ih rest.length (by simp; omega) hrest (rulesetLoop_keeps hrule hloop hc) rfl
      | option op arg after =>
        rw [heff] at h
        obtain ⟨c₁, hop, hrest⟩ := Option.bind_eq_some_iff.mp h
        exact ih ls.length (by simp) hrest (hoption op arg after c c₁ hop hc) rfl

theorem configRead_eq (file : Text) (beyond : ℕ → Text) (c : FileConfig) :
    configRead file beyond c = readLines (fileLines file beyond) c := rfl

end WifiCat.Analysis
