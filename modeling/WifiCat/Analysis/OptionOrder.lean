import WifiCat.Analysis.OptionParts
import WifiCat.Analysis.Comments

/-!
# The order of the options

A configuration file is read item by item: a line outside of a block, or a block.  Each item is
an action on the configuration that may fail, so that the file may be rearranged as long as
items that interact keep their order: `option_order`.
-/

set_option autoImplicit false

namespace WifiCat.Analysis

open Scan TextLines Rearrangement

/-! ## Items -/

/-- The lines of a block behind its first one, up to the one that closes it.
SOURCE: conf.c:488-498 -/
def closesBlock : List Text → Bool
  | [] => false
  | l :: ls => if blockEffect ⟨l, []⟩ = .close then ls.isEmpty else closesBlock ls

/-- A line that opens a block, or one that stands for itself.
SOURCE: conf.c:1061-1066 -/
def isItem (first : Text) (rest : List Text) : Bool :=
  match lineEffect ⟨first, []⟩ with
  | .block _ => closesBlock rest
  | _ => rest.isEmpty

/-- A line outside of a block, or a block, with the newlines; every line fits the buffer. -/
structure Item where
  first : Text
  rest : List Text
  fits : ∀ l ∈ first :: rest, Complete l ∧ l.length ≤ MAX_LINE - 1
  shape : isItem first rest = true
deriving DecidableEq

namespace Item

/-- The lines of an item. -/
def lines (i : Item) : List Text := i.first :: i.rest

/-- What its first line does. -/
def effect (i : Item) : LineEffect := lineEffect ⟨i.first, []⟩

/-- The option that it sets, if it is a line with an option. -/
def option (i : Item) : Option OpCode :=
  match i.effect with
  | .option op _ _ => some op
  | _ => none

end Item

/-- The file of items. -/
def fileOf (is : List Item) : Text := (is.flatMap Item.lines).flatten

/-! ## The action of an item -/

/-- The rules of a block, if no line of it is refused.
SOURCE: conf.c:488-533 -/
def blockRules : List Text → Option (List FirewallRule)
  | [] => some []
  | l :: ls =>
    match blockEffect ⟨l, []⟩ with
    | .skip => blockRules ls
    | .close => some []
    | .stop => none
    | .rule arg => (blockRules ls).map ((parseFirewallRule arg).toOption.toList ++ ·)

/-- Rules at the end of a ruleset. -/
def appendRules (name : RulesetName) (rules : List FirewallRule) (c : FileConfig) : FileConfig :=
  { c with rules := Function.update c.rules name (c.rules name ++ rules) }

/-- What an item does to the configuration. -/
def Item.act (i : Item) : FileConfig → Option FileConfig :=
  match i.effect with
  | .skip => some
  | .stop => fun _ => none
  | .block arg => fun c => do
    let name ← getRuleset (arg.takeWhile fun c => !isBlank c)
    let rules ← blockRules i.rest
    return appendRules name rules c
  | .option op arg after => op.apply arg after

theorem lineBody_begins (l : Text) : lineBody l <+: l := by
  have hstring : cString l <+: l := List.takeWhile_prefix _
  rcases uncomment_cases none (cString l) with hall | ⟨t, ht, -⟩
  · rw [lineBody, hall]
    exact hstring
  · exact List.IsPrefix.trans ⟨'#' :: t, ht.symm⟩ hstring

/-- INTERNAL: what is behind a line with its newline is not read.
SOURCE: conf.c:411-458, 705-728 -/
theorem cString_after_complete {l : Text} (h : Complete l) (hne : lineText l ≠ [])
    (beyond beyond' : Text) :
    cString (stripWhitespace ⟨l, beyond⟩).2 = cString (stripWhitespace ⟨l, beyond'⟩).2 := by
  cases hlast : (lineBody l).getLast?.any isSpace with
  | true => rw [cString_after hlast hne, cString_after hlast hne]
  | false =>
    -- the text ends before the newline does
    have hshort : (lineBody l).length + 1 ≤ l.length := by
      obtain ⟨w, rfl, -⟩ := h
      refine Nat.lt_of_le_of_ne (lineBody_begins _).length_le fun hlen => ?_
      rw [(lineBody_begins _).eq_of_length hlen, List.getLast?_concat] at hlast
      exact absurd hlast (by decide)
    rw [stripWhitespace_snd hlast hne, stripWhitespace_snd hlast hne,
      List.drop_append_of_le_length hshort, List.drop_append_of_le_length hshort,
      cString_append_nul, cString_append_nul]

/-- INTERNAL: the effect of a line does not depend on what is behind it. -/
theorem blockEffect_beyond (l beyond : Text) : blockEffect ⟨l, beyond⟩ = blockEffect ⟨l, []⟩ :=
  blockEffect_congr rfl

theorem appendRules_nil (name : RulesetName) (c : FileConfig) : appendRules name [] c = c := by
  rw [appendRules, List.append_nil, Function.update_eq_self]

theorem appendRules_appendRules (name : RulesetName) (rules rules' : List FirewallRule)
    (c : FileConfig) :
    appendRules name rules' (appendRules name rules c) = appendRules name (rules ++ rules') c := by
  simp only [appendRules, Function.update_self, Function.update_idem, List.append_assoc]

theorem addFirewallRule_eq (name : RulesetName) (arg : Text) (c : FileConfig) :
    addFirewallRule name arg c =
      appendRules name (parseFirewallRule arg).toOption.toList c := by
  unfold addFirewallRule
  cases parseFirewallRule arg with
  | ok rule => rfl
  | error e => exact (appendRules_nil name c).symm

/-- INTERNAL: a block is read up to the line that closes it.
SOURCE: conf.c:488-533 -/
theorem rulesetLoop_block {name : RulesetName} {block ls : List Line}
    (hclosed : closesBlock (block.map Line.piece) = true) (c : FileConfig) :
    rulesetLoop name (block ++ ls) c =
      (blockRules (block.map Line.piece)).map fun rules => (ls, appendRules name rules c) := by
  induction block generalizing c with
  | nil => cases hclosed
  | cons l block ih =>
    rw [List.map_cons, closesBlock] at hclosed
    rw [List.cons_append, rulesetLoop_cons, blockEffect_beyond l.piece l.beyond, List.map_cons,
      blockRules]
    cases heff : blockEffect ⟨l.piece, []⟩ with
    | skip =>
      rw [heff, if_neg (by decide)] at hclosed
      exact ih hclosed c
    | close =>
      rw [heff, if_pos rfl, List.isEmpty_iff, List.map_eq_nil_iff] at hclosed
      subst hclosed
      exact congrArg (fun c => some (ls, c)) (appendRules_nil name c).symm
    | stop => rfl
    | rule arg =>
      rw [heff, if_neg (by simp)] at hclosed
      dsimp only
      rw [ih hclosed, Option.map_map, addFirewallRule_eq]
      exact congrArg (fun f => Option.map f _) (funext fun rules =>
        congrArg (Prod.mk ls) (appendRules_appendRules name _ rules c))

theorem apply_cString {op : OpCode} {after after' : Text} (h : cString after = cString after')
    (arg : Text) (c : FileConfig) : op.apply arg after c = op.apply arg after' c := by
  by_cases hpolicy : op = .emptyRuleSetPolicy
  · subst hpolicy
    change parseEmptyRulesetPolicy arg after c = parseEmptyRulesetPolicy arg after' c
    unfold parseEmptyRulesetPolicy
    rw [h]
  · exact apply_after hpolicy arg after after' c

/-- INTERNAL: a line with its newline is read as if nothing was behind it. -/
theorem readLines_complete {l : Line} (h : Complete l.piece) (ls : List Line) (c : FileConfig) :
    readLines (l :: ls) c =
      match lineEffect ⟨l.piece, []⟩ with
      | .skip => readLines ls c
      | .stop => none
      | .block arg => (parseFirewallRuleset arg ls c).bind fun r => readLines r.1 r.2
      | .option op arg after => (op.apply arg after c).bind (readLines ls) := by
  rw [readLines_cons]
  have hbody : lineBody l.piece = lineBody (Line.mk l.piece []).piece := rfl
  rcases lineEffect_congr hbody with heff | ⟨op, arg, heff, heff'⟩
  · cases heff' : lineEffect ⟨l.piece, []⟩ <;> simp only [heff, heff']
  · have hne := (lineEffect_option heff).2.2.2.1
    rw [heff, heff']
    dsimp only
    rw [apply_cString (cString_after_complete h hne l.beyond []) arg c]

/-- INTERNAL: **an item is read** as its action, and leaves the lines behind it.
SOURCE: conf.c:1025-1354 -/
theorem readLines_item (i : Item) {ls₁ ls₂ : List Line} (h : ls₁.map Line.piece = i.lines)
    (c : FileConfig) : readLines (ls₁ ++ ls₂) c = (i.act c).bind (readLines ls₂) := by
  obtain ⟨l, block, rfl, hfirst, hrest⟩ := List.map_eq_cons_iff.mp h
  obtain ⟨first, rest, fits, shape⟩ := i
  dsimp only at hfirst hrest
  subst hfirst hrest
  rw [List.cons_append, readLines_complete (fits l.piece List.mem_cons_self).1]
  unfold Item.act Item.effect
  unfold isItem at shape
  dsimp only
  cases heff : lineEffect ⟨l.piece, []⟩ with
  | skip =>
    rw [heff, List.isEmpty_iff, List.map_eq_nil_iff] at shape
    rw [shape]
    rfl
  | stop => rfl
  | block arg =>
    rw [heff] at shape
    dsimp only
    unfold parseFirewallRuleset
    cases getRuleset (arg.takeWhile fun c => !isBlank c) with
    | none => rfl
    | some name =>
      simp only [bind, Option.bind_some, rulesetLoop_block shape]
      cases blockRules (block.map Line.piece) <;> rfl
  | option op arg after =>
    rw [heff, List.isEmpty_iff, List.map_eq_nil_iff] at shape
    rw [shape]
    rfl

/-- INTERNAL: **a file of items** is read as one action after the other.
SOURCE: conf.c:1010-1359 -/
theorem configRead_fileOf (is : List Item) (beyond : ℕ → Text) (c : FileConfig) :
    configRead (fileOf is) beyond c = is.foldlM (fun c i => i.act c) c := by
  have hall : ∀ l ∈ is.flatMap Item.lines, Complete l ∧ l.length ≤ MAX_LINE - 1 := by
    intro l hl
    obtain ⟨i, -, hl⟩ := List.mem_flatMap.mp hl
    exact i.fits l hl
  have hlines : TextLines.lines (fileOf is) = is.flatMap Item.lines :=
    lines_flatten fun l hl => (hall l hl).1
  have hpieces : pieces MAX_LINE (fileOf is) = is.flatMap Item.lines := by
    rw [pieces_eq_lines (by decide) (hlines ▸ fun l hl => (hall l hl).2), hlines]
  rw [configRead_eq]
  have hread : ∀ (is : List Item) (ls : List Line), ls.map Line.piece = is.flatMap Item.lines →
      ∀ c, readLines ls c = is.foldlM (fun c i => i.act c) c := by
    intro is
    induction is with
    | nil =>
      intro ls h c
      rw [List.map_eq_nil_iff.mp h]
      rfl
    | cons i is ih =>
      intro ls h c
      rw [List.flatMap_cons] at h
      obtain ⟨ls₁, ls₂, rfl, h₁, h₂⟩ := List.map_eq_append_iff.mp h
      rw [readLines_item i h₁ c, List.foldlM_cons]
      exact congrArg (Option.bind _) (funext (ih ls₂ h₂))
  exact hread is _ ((fileLines_piece _ beyond).trans hpieces) c

/-! ## Items that interact -/

/-- The part of the configuration that an item writes. -/
def Item.writes (i : Item) : Option Part :=
  match i.effect with
  | .block arg => (getRuleset (arg.takeWhile fun c => !isBlank c)).map .rules
  | .option op arg _ => optionWrites op arg
  | _ => none

/-- The parts that it reads. -/
def Item.Reads (i : Item) (p : Part) : Prop :=
  match i.effect with
  | .option op arg _ => optionReads op arg p
  | _ => i.writes = some p

/-- INTERNAL: an item reads and writes its parts, and no other ones. -/
theorem footprint_act (i : Item) :
    Footprint getPart i.act i.Reads fun q => i.writes = some q := by
  unfold Item.act Item.Reads Item.writes
  cases i.effect with
  | skip => exact footprint_some fun q h => by cases h
  | stop => exact footprint_none _ _
  | block arg =>
    dsimp only
    cases getRuleset (arg.takeWhile fun c => !isBlank c) with
    | none => exact footprint_none _ _
    | some name =>
      refine footprint_part (.rules name) (fun c => (blockRules i.rest).map (c.rules name ++ ·))
        (fun c => ?_) fun c c' hreads => ?_
      · simp only [bind, Option.bind_some]
        cases blockRules i.rest <;> rfl
      · have hrules : c.rules name = c'.rules name := hreads (.rules name) rfl
        rw [hrules]
  | option op arg after => exact footprint_apply op arg after

/-- Two items whose order matters: two marks, a MAC list and the mechanism, two policies of one
ruleset, and two blocks of one ruleset. -/
def Item.interacts (a b : Item) : Bool :=
  match a.writes, b.writes with
  | some (.mark _), some (.mark _) => true
  | some .macmechanism, some (.maclist l) => l ≠ .trusted
  | some (.maclist l), some .macmechanism => l ≠ .trusted
  | some (.policy name), some (.policy name') => name = name'
  | some (.rules name), some (.rules name') => name = name'
  | _, _ => false

theorem interacts_comm (a b : Item) : a.interacts b = b.interacts a := by
  unfold Item.interacts
  cases a.writes with
  | none =>
    cases b.writes with
    | none => rfl
    | some q => cases q <;> rfl
  | some p =>
    cases b.writes with
    | none => cases p <;> rfl
    | some q => cases p <;> cases q <;> first | rfl | exact decide_eq_decide.mpr eq_comm

/-- INTERNAL: the parts that an item reads besides the one that it writes. -/
theorem reads_cases {i : Item} {p : Part} (h : i.Reads p) :
    i.writes = some p ∨ (∃ m m', p = .mark m ∧ i.writes = some (.mark m')) ∨
      ∃ l, l ≠ .trusted ∧ p = .macmechanism ∧ i.writes = some (.maclist l) := by
  unfold Item.Reads at h
  split at h
  · next op arg after heff =>
    have hwrites : i.writes = optionWrites op arg := by rw [Item.writes, heff]
    rw [hwrites]
    unfold optionReads at h
    split at h
    · exact Or.inr (Or.inl ⟨_, _, rfl, rfl⟩)
    · next l =>
      refine Or.inr (Or.inr ⟨l, ?_, rfl, rfl⟩)
      rintro rfl
      exact h rfl
    · exact Or.inl h
  · exact Or.inl h

/-- An option that sets one field, or a MAC list. -/
def isSingle : OpCode → Bool
  | .emptyRuleSetPolicy | .firewallRuleSet | .firewallRule | .unread | .badOption => false
  | _ => true

/-- The options of a file that set one field, and its MAC lists. -/
def singleOptions (is : List Item) : List OpCode :=
  is.filterMap fun i => i.option.filter isSingle

/-- The option that writes a part, if only one does. -/
def partOption : Part → Option OpCode
  | .daemon => some .daemon
  | .text o => some (.text o)
  | .number o => some (.number o)
  | .boolean o => some (.boolean o)
  | .mark m => some (.fwMark m)
  | .macmechanism => some .macMechanism
  | .maclist l => some (.macList l)
  | .policy _ => none
  | .rules _ => none

theorem option_of_writes {i : Item} {p : Part} {op : OpCode} (h : i.writes = some p)
    (hp : partOption p = some op) : i.option.filter isSingle = some op := by
  unfold Item.writes at h
  unfold Item.option
  cases heff : i.effect with
  | skip =>
    rw [heff] at h
    cases h
  | stop =>
    rw [heff] at h
    cases h
  | block arg =>
    rw [heff] at h
    obtain ⟨name, -, rfl⟩ := Option.map_eq_some_iff.mp h
    cases hp
  | option op' arg after =>
    rw [heff] at h
    dsimp only at h ⊢
    cases op' with
    | emptyRuleSetPolicy =>
      obtain ⟨name, -, rfl⟩ := Option.map_eq_some_iff.mp h
      cases hp
    | _ =>
      cases h
      try exact hp

/-- INTERNAL: two items that write the same part interact, or repeat an option. -/
theorem interacts_or_repeats {a b : Item} {p : Part} (ha : a.writes = some p)
    (hb : b.writes = some p) :
    a.interacts b = true ∨
      ∃ op, a.option.filter isSingle = some op ∧ b.option.filter isSingle = some op := by
  cases hp : partOption p with
  | some op => exact Or.inr ⟨op, option_of_writes ha hp, option_of_writes hb hp⟩
  | none =>
    left
    rw [Item.interacts, ha, hb]
    cases p with
    | policy name => exact decide_eq_true rfl
    | rules name => exact decide_eq_true rfl
    | _ => cases hp

/-- INTERNAL: an item reads the part that it writes. -/
theorem reads_of_writes {i : Item} {p : Part} (h : i.writes = some p) : i.Reads p := by
  unfold Item.Reads
  cases heff : i.effect with
  | option op arg after =>
    rw [Item.writes, heff] at h
    exact optionReads_self h
  | _ => exact h

/-- INTERNAL: no option of a file is set by two items. -/
theorem eq_of_singleOptions {is : List Item} (h : (singleOptions is).Nodup) {a b : Item}
    (ha : a ∈ is) (hb : b ∈ is) {op : OpCode} (hop : a.option.filter isSingle = some op)
    (hop' : b.option.filter isSingle = some op) : a = b := by
  by_contra hne
  have hpair := List.pairwise_filterMap.mp h
  have hsym : Std.Symm fun i j : Item => ∀ o, i.option.filter isSingle = some o →
      ∀ o', j.option.filter isSingle = some o' → o ≠ o' :=
    ⟨fun i j hij o ho o' ho' => (hij o' ho' o ho).symm⟩
  exact hpair.forall ha hb hne op hop op hop' rfl

/-- **The order of options does not matter** but for the items that interact.
SOURCE: conf.c:1010-1359 -/
theorem option_order {is₁ is₂ : List Item} (hperm : is₁.Perm is₂)
    (hsingle : (singleOptions is₁).Nodup)
    (horder : ∀ a ∈ is₁, ∀ b ∈ is₁, a.interacts b = true →
      is₁.filter (fun i => i = a ∨ i = b) = is₂.filter fun i => i = a ∨ i = b)
    (beyond beyond' : ℕ → Text) (c : FileConfig) :
    configRead (fileOf is₁) beyond c = configRead (fileOf is₂) beyond' c := by
  rw [configRead_fileOf, configRead_fileOf]
  refine foldlM_eq_of_perm hperm (fun a ha b hb hnot => ?_) c
  refine horder a ha b hb ?_
  by_contra hfree
  have hne : a ≠ b := by
    rintro rfl
    exact hnot fun s => rfl
  -- an item that writes what the other one reads interacts with it, for no option is repeated
  have hsep : ∀ i ∈ is₁, ∀ j ∈ is₁, i ≠ j → ¬ i.interacts j = true → ∀ p, i.writes = some p →
      ¬ j.Reads p := by
    intro i hi j hj hij hfree p hwrites hreads
    rcases reads_cases hreads with hsame | ⟨m, m', rfl, hmark⟩ | ⟨l, hl, rfl, hlist⟩
    · rcases interacts_or_repeats hwrites hsame with hinter | ⟨op, hop, hop'⟩
      · exact hfree hinter
      · exact hij (eq_of_singleOptions hsingle hi hj hop hop')
    · exact hfree (by rw [Item.interacts, hwrites, hmark])
    · exact hfree (by rw [Item.interacts, hwrites, hlist]; exact decide_eq_true hl)
  have hfree' : ¬ b.interacts a = true := interacts_comm a b ▸ hfree
  refine hnot (Footprint.commute (fun s t => getPart_ext) (footprint_act a) (footprint_act b)
    (fun p hp => ?_) fun p hp => ?_)
  · have hreads := hsep a ha b hb hne hfree p hp
    exact ⟨hreads, fun hw => hreads (reads_of_writes hw)⟩
  · have hreads := hsep b hb a ha hne.symm hfree' p hp
    exact ⟨hreads, fun hw => hreads (reads_of_writes hw)⟩

/-- A line of a sample file. -/
def mechanismItem : Item :=
  ⟨"MACMechanism allow\n".toList, [], by decide +kernel, by decide +kernel⟩

/-- Another one. -/
def allowedItem : Item :=
  ⟨"AllowedMACList 00:11:22:33:44:55\n".toList, [], by decide +kernel, by decide +kernel⟩

/-- A line that interacts with neither. -/
def portItem : Item := ⟨"GatewayPort 2051\n".toList, [], by decide +kernel, by decide +kernel⟩

/-- The port may come first, last, or in between. -/
theorem option_order_port :
    configRead (fileOf [mechanismItem, allowedItem, portItem]) (fun _ => []) {} =
      configRead (fileOf [portItem, mechanismItem, allowedItem]) (fun _ => []) {} :=
  option_order (by decide +kernel) (by decide +kernel) (by decide +kernel) _ _ _

/-- Two files with the same items that are not read alike. -/
def OrderMatters (is₁ is₂ : List Item) : Prop :=
  is₁.Perm is₂ ∧ (singleOptions is₁).Nodup ∧
    configRead (fileOf is₁) (fun _ => []) {} ≠ configRead (fileOf is₂) (fun _ => []) {}

/-- A block with one rule. -/
def allowItem : Item :=
  ⟨"FirewallRuleSet users-to-router \x7b\n".toList,
    ["FirewallRule allow tcp port 22\n".toList, "\x7d\n".toList], by decide +kernel,
    by decide +kernel⟩

/-- A block of the same ruleset. -/
def refuseItem : Item :=
  ⟨"FirewallRuleSet users-to-router \x7b\n".toList,
    ["FirewallRule block tcp port 22\n".toList, "\x7d\n".toList], by decide +kernel,
    by decide +kernel⟩

/-- A mark that has the default of another one. -/
def authenticatedMarkItem : Item :=
  ⟨"FW_MARK_AUTHENTICATED 0x100\n".toList, [], by decide +kernel, by decide +kernel⟩

/-- The other one, with a value of its own. -/
def blockedMarkItem : Item :=
  ⟨"FW_MARK_BLOCKED 0x800\n".toList, [], by decide +kernel, by decide +kernel⟩

/-- The rules of a ruleset are in the order of the file; a MAC list is read under the mechanism
set so far, and a mark is compared with the marks set so far.
SOURCE: conf.c:637-660, 1279-1308, 1688-1691 -/
theorem order_matters :
    OrderMatters [allowItem, refuseItem] [refuseItem, allowItem] ∧
      OrderMatters [mechanismItem, allowedItem] [allowedItem, mechanismItem] ∧
      OrderMatters [blockedMarkItem, authenticatedMarkItem]
        [authenticatedMarkItem, blockedMarkItem] := by
  refine ⟨⟨List.Perm.swap _ _ _, by decide +kernel, fun h => ?_⟩,
    ⟨List.Perm.swap _ _ _, by decide +kernel, fun h => ?_⟩,
    ⟨List.Perm.swap _ _ _, by decide +kernel, fun h => ?_⟩⟩
  · have hrules := congrArg (Option.map fun c => c.rules .usersToRouter) h
    revert hrules
    decide +kernel
  · have hlist := congrArg (Option.map fun c => c.maclist .allowed) h
    revert hlist
    decide +kernel
  · have haccept := congrArg Option.isSome h
    revert haccept
    decide +kernel

end WifiCat.Analysis
