import WifiCat.Model.CounterListing
import WifiCat.Model.RuleText
import WifiCat.Analysis.RuleGrammar

/-!
# Loading the rules

A rule that the parser accepts is compiled into a text, the text is taken as a format, and
`iptables` has to accept what comes out, in each table the ruleset is loaded into.
`accepted_rules_load_iff` says for which rules all of that goes well.
-/

set_option autoImplicit false

namespace WifiCat.Analysis

open Scan TextLines

/-! ## What `iptables` accepts -/

/-- What `iptables` takes behind `-d`, `-p` and `--dport`. -/
structure IptablesSyntax where
  address : Text → Prop
  protocol : Text → Prop
  port : Text → Prop

/-- It takes the documented addresses and protocols, and ports and ranges that are not empty. -/
structure IptablesSyntax.Standard (s : IptablesSyntax) : Prop where
  address : ∀ w, isIpMask w = true → s.address w
  protocol : ∀ w ∈ protocols, s.protocol w
  port : ∀ w, isPortRange w = true → s.port w
  port_nonempty : ¬s.port []

/-- The options of a rule are taken; a port needs the protocol `tcp` or `udp`. -/
structure IptablesSyntax.Takes (s : IptablesSyntax) (rule : FirewallRule) : Prop where
  address : ∀ m, rule.mask = some m → s.address m
  protocol : ∀ p, rule.protocol = some p → s.protocol p
  port : ∀ n, rule.port = some n → s.port n ∧
    (rule.protocol = some "tcp".toList ∨ rule.protocol = some "udp".toList)

/-- A rule is accepted into a table: its options are taken, and `DROP` and `REJECT` are targets
of the filter table only. -/
structure IptablesSyntax.Accepts (s : IptablesSyntax) (table : TableName) (rule : FirewallRule) :
    Prop where
  options : s.Takes rule
  target : rule.target = .drop ∨ rule.target = .reject → table = .filter

/-! ## What loading is -/

/-- The text of a condition that a ruleset writes. -/
def optionText : Match → Text
  | .destination mask => "-d ".toList ++ mask ++ [' ']
  | .protocol name => "-p ".toList ++ name ++ [' ']
  | .dport port => "--dport ".toList ++ port ++ [' ']
  | _ => []

/-- The text of a command that appends a rule. -/
def appendText (table : TableName) (chain : String) (r : IptablesRule) : Text :=
  "-t ".toList ++ table.text ++ " -A ".toList ++ chain.toList ++ [' '] ++
    r.conds.flatMap optionText ++ "-j ".toList ++ targetColumn r

/-- The command for a rule in a table and chain is the text that was compiled, which has every
field of the rule, and it is accepted. -/
structure LoadsAt (s : IptablesSyntax) (table : TableName) (chain : String)
    (rule : FirewallRule) : Prop where
  command : iptablesDoCommandText (iptablesCompileText table chain rule) =
    some ("iptables ".toList ++ iptablesCompileText table chain rule)
  untruncated : iptablesCompileText table chain rule = appendText table chain (compileRule rule)
  accepted : s.Accepts table rule

/-- The rule loads into every table and chain into which its ruleset is loaded. -/
def RuleLoads (s : IptablesSyntax) (name : RulesetName) (rule : FirewallRule) : Prop :=
  ∀ place ∈ loadedInto name, LoadsAt s place.1 place.2 rule

/-- The text of each of the rule's commands fits the buffer. -/
def FitsCommand (name : RulesetName) (rule : FirewallRule) : Prop :=
  ∀ place ∈ loadedInto name, (appendText place.1 place.2 (compileRule rule)).length < MAX_BUF

/-- A rule of the preauthenticated users neither drops nor rejects. -/
def LegalTarget (name : RulesetName) (rule : FirewallRule) : Prop :=
  name = .preauthenticatedUsers → rule.target ≠ .drop ∧ rule.target ≠ .reject

/-- What loading takes: a target that every table has, options that are taken, no `%` in the
protocol, and a text that fits the buffer. -/
structure LoadableRule (s : IptablesSyntax) (name : RulesetName) (rule : FirewallRule) : Prop where
  target : LegalTarget name rule
  options : s.Takes rule
  noPercent : ∀ p, rule.protocol = some p → '%' ∉ p
  fits : FitsCommand name rule

/-! ## The text -/

/-- INTERNAL: the pieces that are written are cut off together. -/
theorem snprintfAppend_take (a b : Text) :
    snprintfAppend (a.take (MAX_BUF - 1)) b = (a ++ b).take (MAX_BUF - 1) := by
  have hroom : MAX_BUF - (a.take (MAX_BUF - 1)).length - 1 = MAX_BUF - 1 - a.length := by
    rw [List.length_take]
    omega
  rw [snprintfAppend, hroom, List.take_append]

/-- INTERNAL: an option that is there, and one that is not. -/
theorem snprintfOption_take (option : Text) (value : Option Text) (a : Text) :
    snprintfOption option value (a.take (MAX_BUF - 1)) =
      (a ++ value.elim [] fun value => option ++ value ++ [' ']).take (MAX_BUF - 1) := by
  cases value with
  | none => simp [snprintfOption]
  | some value => exact snprintfAppend_take _ _

theorem targetColumn_compile (rule : FirewallRule) :
    targetColumn (compileRule rule) = rule.target.mode := by
  unfold compileRule targetColumn
  cases rule.target <;> rfl

/-- INTERNAL: the options of a rule, in the order in which they are written. -/
theorem options_compile (rule : FirewallRule) :
    (compileRule rule).conds.flatMap optionText =
      (rule.mask.elim [] fun value => "-d ".toList ++ value ++ [' ']) ++
      (rule.protocol.elim [] fun value => "-p ".toList ++ value ++ [' ']) ++
      rule.port.elim [] fun value => "--dport ".toList ++ value ++ [' '] := by
  have hoption : ∀ (f : Text → Match) (value : Option Text),
      (value.map f).toList.flatMap optionText = value.elim [] (optionText ∘ f) := by
    intro f value
    cases value with
    | none => rfl
    | some value => exact List.append_nil _
  rw [compileRule, List.flatMap_append, List.flatMap_append, hoption, hoption, hoption]
  rfl

/-- INTERNAL: the text of a rule's command, as its pieces are written. -/
theorem appendText_compile (table : TableName) (chain : String) (rule : FirewallRule) :
    appendText table chain (compileRule rule) =
      "-t ".toList ++ table.text ++ " -A ".toList ++ chain.toList ++ [' '] ++
        (rule.mask.elim [] fun value => "-d ".toList ++ value ++ [' ']) ++
        (rule.protocol.elim [] fun value => "-p ".toList ++ value ++ [' ']) ++
        (rule.port.elim [] fun value => "--dport ".toList ++ value ++ [' ']) ++
        ("-j ".toList ++ rule.target.mode) := by
  unfold appendText
  simp only [targetColumn_compile, options_compile, List.append_assoc]

/-- INTERNAL: **the text that is compiled** is the text of the command, cut off at the end of
the buffer.
SOURCE: fw_iptables.c:198-249 -/
theorem iptablesCompileText_eq (table : TableName) (chain : String) (rule : FirewallRule) :
    iptablesCompileText table chain rule =
      (appendText table chain (compileRule rule)).take (MAX_BUF - 1) := by
  have hfirst : ∀ b, snprintfAppend [] b = b.take (MAX_BUF - 1) := by
    intro b
    have happend := snprintfAppend_take [] b
    rwa [List.take_nil, List.nil_append] at happend
  rw [appendText_compile]
  unfold iptablesCompileText
  dsimp only
  rw [hfirst, snprintfOption_take, snprintfOption_take, snprintfOption_take, snprintfAppend_take]

/-- INTERNAL: a format is what it is taken for exactly when it asks for nothing. -/
theorem vasprintf_self_iff (s : Text) : vasprintf s = some s ↔ '%' ∉ s := by
  have hlength : ∀ {s t : Text}, vasprintf s = some t → t.length ≤ s.length := by
    intro s
    fun_induction vasprintf s with
    | case1 =>
      rintro t ⟨⟩
      exact le_rfl
    | case2 => rintro t ⟨⟩
    | case3 s ih =>
      intro t h
      obtain ⟨u, hu, rfl⟩ := Option.map_eq_some_iff.mp h
      have := ih hu
      simp only [List.length_cons]
      omega
    | case4 => rintro t ⟨⟩
    | case5 c s _ _ ih =>
      intro t h
      obtain ⟨u, hu, rfl⟩ := Option.map_eq_some_iff.mp h
      simpa using ih hu
  fun_induction vasprintf s with
  | case1 => simp
  | case2 => simp
  | case3 s ih =>
    -- two percent signs become one
    constructor
    · intro h
      obtain ⟨u, hu, heq⟩ := Option.map_eq_some_iff.mp h
      have hle := hlength hu
      have hlen := congrArg List.length heq
      simp only [List.length_cons] at hlen
      omega
    · intro h
      exact absurd List.mem_cons_self h
  | case4 c s hc => simp
  | case5 c s hone htwo ih =>
    have hne : c ≠ '%' := by
      rintro rfl
      cases s with
      | nil => exact hone rfl rfl
      | cons d s => exact htwo d s rfl rfl
    rw [List.mem_cons, not_or]
    constructor
    · intro h
      obtain ⟨u, hu, heq⟩ := Option.map_eq_some_iff.mp h
      obtain rfl := (List.cons.inj heq).2
      exact ⟨Ne.symm hne, ih.mp hu⟩
    · rintro ⟨-, h⟩
      rw [ih.mpr h]
      rfl

/-- INTERNAL: the command that is executed is the text exactly when the text asks for nothing.
SOURCE: fw_iptables.c:160-166 -/
theorem iptablesDoCommandText_iff (s : Text) :
    iptablesDoCommandText s = some ("iptables ".toList ++ s) ↔ '%' ∉ s := by
  rw [← vasprintf_self_iff, iptablesDoCommandText]
  constructor
  · intro h
    obtain ⟨t, ht, heq⟩ := Option.map_eq_some_iff.mp h
    rw [ht, List.append_cancel_left heq]
  · intro h
    rw [h]
    rfl

/-! ## Which rules load -/

/-- The characters of a mask and of a port. -/
structure CleanRule (rule : FirewallRule) : Prop where
  mask : ∀ m, rule.mask = some m → isMask m = true
  port : ∀ n, rule.port = some n → isPort n = true

/-- INTERNAL: a rule that is written has the characters that the parser lets pass.
SOURCE: conf.c:602-608, 628-635 -/
theorem cleanRule_of_written {arg : Text} {rule : FirewallRule} (h : writtenRule arg = some rule) :
    CleanRule rule := by
  obtain ⟨r, target, -, -, htaken, rfl⟩ := exists_taken h
  constructor
  · intro m hm
    obtain rfl := Option.some.inj hm
    cases hd : r.destination with
    | none => rfl
    | some d => exact htaken.destination d.1 d.2 hd
  · intro n hn
    obtain ⟨⟨keyword, number⟩, hp, rfl⟩ := Option.map_eq_some_iff.mp hn
    cases number with
    | none => rfl
    | some n => exact (htaken.port keyword _ hp).2.2.1 n rfl

/-- INTERNAL: of a clean rule only the protocol can ask for an argument. -/
theorem percent_not_mem_iff {table : TableName} {chain : String} {rule : FirewallRule}
    (hchain : '%' ∉ chain.toList) (hrule : CleanRule rule) :
    '%' ∉ appendText table chain (compileRule rule) ↔
      ∀ p, rule.protocol = some p → '%' ∉ p := by
  have hoption : ∀ (option : Text) (value : Option Text), '%' ∉ option →
      ('%' ∉ (value.elim [] fun value => option ++ value ++ [' ']) ↔
        ∀ v, value = some v → '%' ∉ v) := by
    intro option value hoption
    cases value with
    | none => simp
    | some value => simp [hoption]
  have hmask : ∀ m, rule.mask = some m → '%' ∉ m := by
    intro m hm hmem
    have hchars := hrule.mask m hm
    rw [isMask, List.all_eq_true] at hchars
    exact absurd (hchars '%' hmem) (by decide)
  have hport : ∀ n, rule.port = some n → '%' ∉ n := by
    intro n hn hmem
    have hchars := hrule.port n hn
    rw [isPort, List.all_eq_true] at hchars
    exact absurd (hchars '%' hmem) (by decide)
  have hconst : '%' ∉ "-t ".toList ++ table.text ++ " -A ".toList ++ chain.toList ++ [' '] := by
    have htable : '%' ∉ table.text := by cases table <;> decide
    simp only [List.mem_append, not_or]
    exact ⟨⟨⟨⟨by decide, htable⟩, by decide⟩, hchain⟩, by decide⟩
  have hmode : '%' ∉ "-j ".toList ++ rule.target.mode := by
    cases rule.target <;> decide
  rw [appendText_compile, List.mem_append, not_or, List.mem_append, not_or, List.mem_append, not_or,
    List.mem_append, not_or, hoption _ _ (by decide), hoption _ _ (by decide),
    hoption _ _ (by decide)]
  exact ⟨fun h => h.1.1.2, fun h => ⟨⟨⟨⟨hconst, hmask⟩, h⟩, hport⟩, hmode⟩⟩

/-- INTERNAL: the text that is compiled is the whole text exactly when it fits. -/
theorem compiled_whole_iff (table : TableName) (chain : String) (rule : FirewallRule) :
    iptablesCompileText table chain rule = appendText table chain (compileRule rule) ↔
      (appendText table chain (compileRule rule)).length < MAX_BUF := by
  rw [iptablesCompileText_eq, List.take_eq_self_iff]
  have hbuf : 0 < MAX_BUF := by decide
  omega

/-- INTERNAL: **one command of a rule** goes well exactly when its text fits, the protocol asks
for nothing and the table accepts the rule.
SOURCE: fw_iptables.c:152-276 -/
theorem loadsAt_iff (s : IptablesSyntax) {table : TableName} {chain : String} {rule : FirewallRule}
    (hchain : '%' ∉ chain.toList) (hrule : CleanRule rule) :
    LoadsAt s table chain rule ↔
      (appendText table chain (compileRule rule)).length < MAX_BUF ∧
      (∀ p, rule.protocol = some p → '%' ∉ p) ∧ s.Accepts table rule := by
  constructor
  · rintro ⟨hcommand, hwhole, haccepted⟩
    rw [iptablesDoCommandText_iff, hwhole, percent_not_mem_iff hchain hrule] at hcommand
    exact ⟨(compiled_whole_iff table chain rule).mp hwhole, hcommand, haccepted⟩
  · rintro ⟨hfits, hpercent, haccepted⟩
    have hwhole := (compiled_whole_iff table chain rule).mpr hfits
    refine ⟨?_, hwhole, haccepted⟩
    rw [iptablesDoCommandText_iff, hwhole]
    exact (percent_not_mem_iff hchain hrule).mpr hpercent

/-- INTERNAL: only the preauthenticated users' rules go into another table than `filter`.
SOURCE: fw_iptables.c:439 -/
theorem loadedInto_table {name : RulesetName} {place : TableName × String}
    (h : place ∈ loadedInto name) : place.1 = .filter ∨ name = .preauthenticatedUsers := by
  have hfilter : ∀ chain, place ∈ [(TableName.filter, chain)] → place.1 = .filter := by
    intro chain hmem
    rw [List.mem_singleton.mp hmem]
  cases name with
  | preauthenticatedUsers => exact Or.inr rfl
  | trustedUsers => exact Or.inl (hfilter _ h)
  | trustedUsersToRouter => exact Or.inl (hfilter _ h)
  | usersToRouter => exact Or.inl (hfilter _ h)
  | authenticatedUsers => exact Or.inl (hfilter _ h)

/-- INTERNAL: no chain has a percent sign in its name. -/
theorem loadedInto_chain (name : RulesetName) : ∀ place ∈ loadedInto name, '%' ∉ place.2.toList := by
  cases name <;> decide

/-- INTERNAL: **a rule loads** exactly when it is loadable.
SOURCE: fw_iptables.c:198-276, 439-590 -/
theorem ruleLoads_iff (s : IptablesSyntax) {rule : FirewallRule} (hrule : CleanRule rule)
    (name : RulesetName) : RuleLoads s name rule ↔ LoadableRule s name rule := by
  constructor
  · intro h
    have hplace : ∀ place ∈ loadedInto name, _ := fun place hmem =>
      (loadsAt_iff s (loadedInto_chain name place hmem) hrule).mp (h place hmem)
    obtain ⟨place, hmem⟩ : ∃ place, place ∈ loadedInto name := by
      cases name <;> exact ⟨_, List.mem_cons_self⟩
    obtain ⟨-, hpercent, haccepted⟩ := hplace place hmem
    refine ⟨?_, haccepted.options, hpercent, fun place hmem => (hplace place hmem).1⟩
    rintro rfl
    have hnat := (hplace (.nat, CHAIN_OUTGOING) List.mem_cons_self).2.2.target
    have hother : TableName.nat ≠ .filter := by decide
    exact ⟨fun hdrop => hother (hnat (Or.inl hdrop)), fun hreject => hother (hnat (Or.inr hreject))⟩
  · intro h place hmem
    refine (loadsAt_iff s (loadedInto_chain name place hmem) hrule).mpr
      ⟨h.fits place hmem, h.noPercent, h.options, fun htarget => ?_⟩
    rcases loadedInto_table hmem with hfilter | hpre
    · exact hfilter
    · rcases htarget with hdrop | hreject
      · exact absurd hdrop (h.target hpre).1
      · exact absurd hreject (h.target hpre).2

/-- INTERNAL: of a documented rule the options are taken.
SOURCE: debian/doc/nodogsplash.1:110-129 -/
theorem takes_of_documented {s : IptablesSyntax} (hs : s.Standard) {arg : Text}
    {rule : FirewallRule} (h : Documented arg rule) :
    s.Takes rule ∧ ∀ p, rule.protocol = some p → '%' ∉ p := by
  obtain ⟨kind, destination, -, hprotocol, hport, hdest, -⟩ := h
  refine ⟨⟨?_, fun p hp => hs.protocol p (hprotocol p hp), fun n hn => ?_⟩, fun p hp => ?_⟩
  · intro m hm
    rcases hdest with ⟨-, hmask⟩ | ⟨ip, hip, -, hmask⟩
    · rw [hmask, Option.some.injEq] at hm
      exact hs.address m (hm ▸ by decide)
    · rw [hmask, Option.some.injEq] at hm
      exact hs.address m (hm ▸ hip)
  · exact ⟨hs.port n (hport n hn).1, (hport n hn).2⟩
  · have hlist : ∀ p ∈ protocols, '%' ∉ p := by decide
    exact hlist p (hprotocol p hp)

/-- INTERNAL: the commands the rules of a ruleset are loaded with are among those of
`iptables_fw_init`.
SOURCE: fw_iptables.c:425-593 -/
theorem loadedInto_commands (fw : Firewall) (config : Config) {name : RulesetName}
    {place : TableName × String} (h : place ∈ loadedInto name) :
    iptablesAppendRuleset config place.1 name place.2 <:+:
      natCommands fw config ++ filterCommands fw config := by
  by_cases hrules : isEmptyRuleset config name = true
  · rw [iptablesAppendRuleset, List.isEmpty_iff.mp hrules]
    exact List.nil_infix
  rw [Bool.not_eq_true] at hrules
  have hl : ∀ {x a b : List IptablesCommand}, x <:+: a → x <:+: a ++ b :=
    fun h => h.trans (List.prefix_append _ _).isInfix
  have hr : ∀ {x a b : List IptablesCommand}, x <:+: b → x <:+: a ++ b :=
    fun h => h.trans (List.suffix_append _ _).isInfix
  have hmarked : ∀ {chain : String} {mark : BitVec 32} {target : String},
      iptablesAppendRuleset config .filter name target <:+:
        markedCommands fw config chain mark name target := by
    intro chain mark target
    rw [markedCommands, hrules]
    exact hl (hr List.infix_rfl)
  have hinternet : ∀ {x}, x <:+: toInternetCommands fw config →
      x <:+: natCommands fw config ++ filterCommands fw config := fun h => hr (hr h)
  have hrouter : ∀ {x}, x <:+: toRouterCommands fw config →
      x <:+: natCommands fw config ++ filterCommands fw config := fun h => hr (hl (hr h))
  cases name with
  | preauthenticatedUsers =>
    rcases List.mem_cons.mp h with rfl | h
    · exact hl (show _ <:+: natCommands fw config from hl (hr List.infix_rfl))
    · obtain rfl := List.mem_singleton.mp h
      refine hinternet ?_
      rw [toInternetCommands, hrules]
      exact hl (hr List.infix_rfl)
  | trustedUsers =>
    obtain rfl := List.mem_singleton.mp h
    exact hinternet (hl (hl (hl (hr hmarked))))
  | authenticatedUsers =>
    obtain rfl := List.mem_singleton.mp h
    exact hinternet (hl (hl (hr hmarked)))
  | trustedUsersToRouter =>
    obtain rfl := List.mem_singleton.mp h
    exact hrouter (hl (hr hmarked))
  | usersToRouter =>
    obtain rfl := List.mem_singleton.mp h
    refine hrouter ?_
    rw [toRouterCommands, hrules]
    exact hr (hl List.infix_rfl)

/-- INTERNAL: of rules that load, `_iptables_append_ruleset` executes the whole commands.
SOURCE: fw_iptables.c:258-276 -/
theorem appendRulesetText_of_loads {s : IptablesSyntax} {name : RulesetName}
    {rules : List FirewallRule} (h : ∀ rule ∈ rules, RuleLoads s name rule)
    {place : TableName × String} (hplace : place ∈ loadedInto name) :
    iptablesAppendRulesetText place.1 place.2 rules =
      rules.map fun rule =>
        some ("iptables ".toList ++ appendText place.1 place.2 (compileRule rule)) := by
  refine List.map_congr_left fun rule hmem => ?_
  obtain ⟨hcommand, hwhole, -⟩ := h rule hmem place hplace
  rw [hcommand, hwhole]

/-- **The rules that are accepted load** exactly when they are loadable, and so do the rules of
a file that is accepted; a documented rule is loadable when its target is one of every table it
goes to and its commands fit the buffer.  Start-up appends a ruleset in every place it is loaded
into, and of rules that load it executes the whole commands there.
SOURCE: conf.c:539-662, fw_iptables.c:152-276, 425-593 -/
theorem accepted_rules_load_iff (s : IptablesSyntax) :
    (∀ arg rule, Trimmed arg → parseFirewallRule arg = .ok rule → ∀ name,
      (RuleLoads s name rule ↔ LoadableRule s name rule)) ∧
    (∀ file beyond c c', (∀ name, c.rules name = []) → configRead file beyond c = some c' →
      ((∀ name, ∀ rule ∈ c'.rules name, RuleLoads s name rule) ↔
        ∀ name, ∀ rule ∈ c'.rules name, LoadableRule s name rule)) ∧
    (s.Standard → ∀ arg rule, Documented arg rule → ∀ name,
      (LoadableRule s name rule ↔ LegalTarget name rule ∧ FitsCommand name rule)) ∧
    (∀ fw config name, ∀ place ∈ loadedInto name,
      iptablesAppendRuleset config place.1 name place.2 <:+:
          natCommands fw config ++ filterCommands fw config ∧
        ((∀ rule ∈ getRulesetList config name, RuleLoads s name rule) →
          iptablesAppendRulesetText place.1 place.2 (getRulesetList config name) =
            (getRulesetList config name).map fun rule =>
              some ("iptables ".toList ++ appendText place.1 place.2 (compileRule rule)))) := by
  refine ⟨?_, ?_, ?_, fun fw config name place hplace =>
    ⟨loadedInto_commands fw config hplace, fun h => appendRulesetText_of_loads h hplace⟩⟩
  · intro arg rule h hparse name
    exact ruleLoads_iff s
      (cleanRule_of_written ((parseFirewallRule_ok_iff_written h.toLower).mp hparse)) name
  · intro file beyond c c' hc hread
    have hclean : ∀ name, ∀ rule ∈ c'.rules name, CleanRule rule := by
      intro name rule hmem
      rw [readLines_rules hread name, hc, List.nil_append, acceptedRules] at hmem
      obtain ⟨l, hl, hrule⟩ := List.mem_filterMap.mp hmem
      rw [ruleLines_parse l (List.mem_of_mem_filter hl)] at hrule
      exact cleanRule_of_written hrule
    exact forall_congr' fun name => forall_congr' fun rule =>
      forall_congr' fun hmem => ruleLoads_iff s (hclean name rule hmem) name
  · intro hs arg rule hdoc name
    obtain ⟨htakes, hpercent⟩ := takes_of_documented hs hdoc
    exact ⟨fun h => ⟨h.target, h.fits⟩, fun h => ⟨h.1, htakes, hpercent, h.2⟩⟩

/-- An `iptables` that takes the documented words and no others. -/
def documentedSyntax : IptablesSyntax where
  address w := isIpMask w = true
  protocol w := w ∈ protocols
  port w := isPortRange w = true

/-- A rule that loads.
SOURCE: fw_iptables.c:513 -/
theorem accepted_rules_load_sample :
    parseFirewallRule "allow tcp port 22".toList = .ok
      { target := .accept, protocol := some "tcp".toList, port := some "22".toList,
        mask := some "0.0.0.0/0".toList } ∧
    RuleLoads documentedSyntax .usersToRouter
      { target := .accept, protocol := some "tcp".toList, port := some "22".toList,
        mask := some "0.0.0.0/0".toList } := by
  have htrimmed : Trimmed "allow tcp port 22".toList := by
    constructor <;> intro c hc <;> cases hc <;> rfl
  have hstandard : documentedSyntax.Standard :=
    ⟨fun _ h => h, fun _ h => h, fun _ h => h, (by decide : ¬isPortRange [] = true)⟩
  have hdoc : Documented "allow tcp port 22".toList
      { target := .accept, protocol := some "tcp".toList, port := some "22".toList,
        mask := some "0.0.0.0/0".toList } :=
    ⟨"allow".toList, [], by decide, by rintro _ ⟨⟩; decide, by rintro _ ⟨⟩; decide,
      Or.inl ⟨rfl, rfl⟩, rfl⟩
  have hfits : FitsCommand .usersToRouter
      { target := .accept, protocol := some "tcp".toList, port := some "22".toList,
        mask := some "0.0.0.0/0".toList } := by
    intro place hmem
    obtain rfl := List.mem_singleton.mp hmem
    decide
  have hloadable := ((accepted_rules_load_iff documentedSyntax).2.2.1 hstandard _ _ hdoc
    .usersToRouter).mpr ⟨by rintro ⟨⟩, hfits⟩
  exact ⟨rfl, ((accepted_rules_load_iff documentedSyntax).1 _ _ htrimmed rfl .usersToRouter).mpr
    hloadable⟩

/-- A rule of the preauthenticated users that rejects goes into the nat table as well.
SOURCE: fw_iptables.c:209-210, 439 -/
theorem accepted_rule_refused :
    parseFirewallRule "block tcp port 25".toList = .ok
      { target := .reject, protocol := some "tcp".toList, port := some "25".toList,
        mask := some "0.0.0.0/0".toList } ∧
    ∀ s : IptablesSyntax, ¬RuleLoads s .preauthenticatedUsers
      { target := .reject, protocol := some "tcp".toList, port := some "25".toList,
        mask := some "0.0.0.0/0".toList } := by
  refine ⟨rfl, fun s h => ?_⟩
  have hnat := (h (.nat, CHAIN_OUTGOING) List.mem_cons_self).accepted.target (Or.inr rfl)
  cases hnat

end WifiCat.Analysis
