import WifiCat.Analysis.OptionParts

/-!
# The rules of a configuration file

`ruleLines` reads the `FirewallRule` lines off the lines of a file, each with the ruleset of
the block it stands in, and `writtenRule` the rule off the words of such a line.  Neither
knows of buffers, of the position in the file or of the parser's errors.  `config_read` sees the
pieces that `fgets` makes of the lines, and drops the rules that the parser refuses: every line
counts exactly when neither makes a difference (`rule_lines_count_iff`).
-/

set_option autoImplicit false

namespace WifiCat.Analysis

open Scan TextLines

/-! ## What is written -/

/-- A line without its comment and the white space around it. -/
def lineText (l : Text) : Text := trimRight ((uncomment none (cString l)).dropWhile isSpace)

/-- The first word of a line. -/
def lineKeyword (l : Text) : Text := (lineText l).takeWhile fun c => !isSpace c

/-- What follows it. -/
def lineArgument (l : Text) : Text :=
  ((lineText l).drop ((lineKeyword l).length + 1)).dropWhile isBlank

/-- The ruleset whose block a line opens. -/
def opensBlock (l : Text) : Option RulesetName :=
  if sameCase (lineKeyword l) "firewallruleset".toList then
    (words isBlank (lineArgument l)).head?.bind getRuleset
  else none

/-- The rules of the blocks: the ruleset and what stands behind `FirewallRule`, in the order of
the file; the first argument is the block that is open. -/
def ruleLines : Option RulesetName → List Text → List (RulesetName × Text)
  | _, [] => []
  | none, l :: ls => ruleLines (opensBlock l) ls
  | some name, l :: ls =>
    if (lineText l).head? = some '}' then ruleLines none ls
    else if sameCase (lineKeyword l) "firewallrule".toList then
      (name, lineArgument l) :: ruleLines (some name) ls
    else ruleLines (some name) ls

/-- A protocol, if the next word is one. -/
def takeProtocol : List Text → Option Text × List Text
  | [] => (none, [])
  | w :: ws => if startsProtocol w then (some w, ws) else (none, w :: ws)

/-- A port, if the next word announces one: the word behind it, which may be missing. -/
def takePort (protocol : Option Text) : List Text → Option (Option Text × List Text)
  | [] => some (none, [])
  | w :: ws =>
    if "port".toList.isPrefixOf w then
      if protocol.any hasPorts && isPort (ws.headD []) then some (some (ws.headD []), ws.tail)
      else none
    else some (none, w :: ws)

/-- An address, if there is a word left. -/
def takeMask : List Text → Option Text
  | [] => some "0.0.0.0/0".toList
  | [_] => none
  | kw :: mask :: _ => if kw = "to".toList ∧ isMask mask then some mask else none

/-- The rule that words write. -/
def ruleOfWords : List Text → Option FirewallRule
  | [] => none
  | kind :: ws => do
    let target ← targetOfWord kind
    let (protocol, ws) := takeProtocol ws
    let (port, ws) ← takePort protocol ws
    let mask ← takeMask ws
    return { target, protocol, port, mask := some mask }

/-- The rule that a line writes, in upper or lower case. -/
def writtenRule (arg : Text) : Option FirewallRule :=
  ruleOfWords (words isBlank (arg.map Char.toLower))

/-! ## Reading the words of a rule -/

/-- No blank stands at an end of the text. -/
def Trimmed (s : Text) : Prop :=
  (∀ c, s.head? = some c → isBlank c = false) ∧ ∀ c, s.getLast? = some c → isBlank c = false

/-- INTERNAL: a text that starts with a text without blanks starts a word with it. -/
theorem isPrefixOf_takeWhile {p s : Text} (hp : ∀ c ∈ p, isBlank c = false) :
    p.isPrefixOf (s.takeWhile fun c => !isBlank c) = p.isPrefixOf s := by
  induction p generalizing s with
  | nil => simp
  | cons d p ih =>
    cases s with
    | nil => rfl
    | cons c s =>
      have hd := hp d List.mem_cons_self
      have hrest := ih (s := s) fun e he => hp e (List.mem_cons_of_mem _ he)
      by_cases hc : isBlank c = true
      · have hne : d ≠ c := by
          rintro rfl
          rw [hd] at hc
          cases hc
        simp [hc, List.isPrefixOf, hne]
      · have hc' : isBlank c = false := by simpa using hc
        simp [hc', List.isPrefixOf, hrest]

/-- INTERNAL: the next word, and the words behind it.
SOURCE: conf.c:369-381 -/
theorem toNextWord_spec {s : Text} (h : Trimmed s) :
    (s = [] ∧ toNextWord s = ([], [], true)) ∨
      ∃ rest, toNextWord s = (s.takeWhile (fun c => !isBlank c), rest, rest.isEmpty) ∧
        words isBlank s = s.takeWhile (fun c => !isBlank c) :: words isBlank rest ∧
        Trimmed rest := by
  cases s with
  | nil => exact Or.inl ⟨rfl, rfl⟩
  | cons c s =>
    right
    have hc : isBlank c = false := h.1 c rfl
    have hwords := words_cons hc s
    have hstop := List.head?_dropWhile_not (fun c => !isBlank c) (c :: s)
    have hsuffix := List.dropWhile_suffix (l := c :: s) (fun c => !isBlank c)
    unfold toNextWord
    generalize (c :: s).dropWhile (fun c => !isBlank c) = t at hwords hstop hsuffix
    cases t with
    | nil =>
      refine ⟨[], rfl, hwords, ?_, ?_⟩ <;> rintro c ⟨⟩
    | cons d t =>
      have hd : isBlank d = true := by simpa using hstop
      obtain ⟨pre, hpre⟩ := hsuffix
      have hrest : t.dropWhile isBlank ≠ [] := by
        intro hnil
        have hall := List.dropWhile_eq_nil_iff.mp hnil
        have hlast : ∀ e ∈ d :: t, isBlank e = true := by
          intro e he
          rcases List.mem_cons.mp he with rfl | he
          · exact hd
          · exact hall e he
        have hmem := List.getLast_mem (List.cons_ne_nil d t)
        have hblank := h.2 ((d :: t).getLast (List.cons_ne_nil d t)) (by
          rw [← hpre, List.getLast?_append_of_ne_nil _ (List.cons_ne_nil d t)]
          exact List.getLast?_eq_some_getLast _)
        rw [hlast _ hmem] at hblank
        cases hblank
      refine ⟨t.dropWhile isBlank, ?_, ?_, ?_, ?_⟩
      · simp [hrest]
      · rw [hwords, words_cons_sep hd, words_dropWhile]
      · intro e he
        have hhead := List.head?_dropWhile_not isBlank t
        rw [he] at hhead
        simpa using hhead
      · intro e he
        refine h.2 e ?_
        obtain ⟨q, hq⟩ := List.dropWhile_suffix (l := t) isBlank
        rw [← hpre, ← hq, ← List.cons_append, ← List.append_assoc,
          List.getLast?_append_of_ne_nil _ hrest]
        exact he

theorem startsProtocol_takeWhile (s : Text) :
    startsProtocol (s.takeWhile fun c => !isBlank c) = startsProtocol s := by
  unfold startsProtocol
  rw [isPrefixOf_takeWhile (by decide), isPrefixOf_takeWhile (by decide),
    isPrefixOf_takeWhile (by decide), isPrefixOf_takeWhile (by decide)]

/-- INTERNAL: the protocol that is parsed is the one that is written.
SOURCE: conf.c:581-588 -/
theorem parseProtocol_spec {s : Text} (h : Trimmed s) :
    ∃ protocol rest, parseProtocol s s.isEmpty = (protocol, rest, rest.isEmpty) ∧
      takeProtocol (words isBlank s) = (protocol, words isBlank rest) ∧ Trimmed rest := by
  rcases toNextWord_spec h with ⟨rfl, -⟩ | ⟨rest, hnext, hwords, hrest⟩
  · exact ⟨none, [], rfl, rfl, h⟩
  · have hne : s ≠ [] := by
      rintro rfl
      cases hwords
    have hempty : s.isEmpty = false := List.isEmpty_eq_false_iff.mpr hne
    rw [parseProtocol, hwords, takeProtocol, startsProtocol_takeWhile]
    by_cases hp : startsProtocol s = true
    · refine ⟨some (s.takeWhile fun c => !isBlank c), rest, ?_, ?_, hrest⟩
      · rw [if_pos hp, hnext, hempty]
        rfl
      · rw [if_pos hp]
    · refine ⟨none, s, ?_, ?_, h⟩
      · rw [if_neg hp]
      · rw [if_neg hp, hwords]

/-- INTERNAL: the port that is parsed is the one that is written.
SOURCE: conf.c:591-613 -/
theorem parsePort_spec (protocol : Option Text) {s : Text} (h : Trimmed s) :
    (∃ e, parsePort protocol s s.isEmpty = .error e ∧
      takePort protocol (words isBlank s) = none) ∨
      ∃ port rest, parsePort protocol s s.isEmpty = .ok (port, rest, rest.isEmpty) ∧
        takePort protocol (words isBlank s) = some (port, words isBlank rest) ∧ Trimmed rest := by
  rcases toNextWord_spec h with ⟨rfl, -⟩ | ⟨rest, hnext, hwords, hrest⟩
  · exact Or.inr ⟨none, [], rfl, rfl, h⟩
  · have hpre : "port".toList.isPrefixOf (s.takeWhile fun c => !isBlank c) =
        "port".toList.isPrefixOf s := isPrefixOf_takeWhile (by decide)
    rw [parsePort, hwords, takePort, hpre]
    by_cases hport : "port".toList.isPrefixOf s = true
    · rw [if_pos hport, if_pos hport]
      cases hproto : protocol.any hasPorts with
      | false => exact Or.inl ⟨-3, rfl, rfl⟩
      | true =>
        have hne : s ≠ [] := by
          rintro rfl
          cases hwords
        have hempty : s.isEmpty = false := List.isEmpty_eq_false_iff.mpr hne
        rcases toNextWord_spec hrest with ⟨rfl, hnext'⟩ | ⟨rest', hnext', hwords', hrest'⟩
        · -- the word `port` was the last one
          refine Or.inr ⟨some [], [], ?_, rfl, hrest⟩
          simp only [hnext, hnext', hempty]
          rfl
        · rw [hwords']
          simp only [hnext, hnext', hempty]
          cases hnum : isPort (rest.takeWhile fun c => !isBlank c) with
          | false => exact Or.inl ⟨-3, rfl, by simp [hnum]⟩
          | true =>
            have hrestNe : rest.isEmpty = false := by
              rw [List.isEmpty_eq_false_iff]
              rintro rfl
              cases hwords'
            refine Or.inr ⟨some (rest.takeWhile fun c => !isBlank c), rest', ?_, ?_, hrest'⟩
            · simp [hrestNe]
              rfl
            · simp [hnum]
    · rw [if_neg hport, if_neg hport]
      exact Or.inr ⟨none, s, rfl, by rw [hwords], h⟩

/-- INTERNAL: the address that is parsed is the one that is written.
SOURCE: conf.c:616-640, 650-653 -/
theorem parseMask_spec {s : Text} (h : Trimmed s) :
    (parseMask s s.isEmpty).toOption = takeMask (words isBlank s) := by
  rcases toNextWord_spec h with ⟨rfl, -⟩ | ⟨rest, hnext, hwords, hrest⟩
  · rfl
  · have hne : s ≠ [] := by
      rintro rfl
      cases hwords
    have hempty : s.isEmpty = false := List.isEmpty_eq_false_iff.mpr hne
    rw [parseMask, hempty, hwords]
    simp only [hnext]
    rcases toNextWord_spec hrest with ⟨rfl, -⟩ | ⟨rest', hnext', hwords', -⟩
    · -- nothing stands behind the keyword
      simp [takeMask, words, cut, Except.toOption, throw, throwThe, MonadExceptOf.throw]
    · have hrestNe : rest.isEmpty = false := by
        rw [List.isEmpty_eq_false_iff]
        rintro rfl
        cases hwords'
      rw [hwords', hrestNe, takeMask]
      simp only [hnext']
      by_cases hto : (s.takeWhile fun c => !isBlank c) = "to".toList
      · by_cases hmask : isMask (rest.takeWhile fun c => !isBlank c) = true
        · simp only [hto, hmask]
          rfl
        · simp only [hto, hmask]
          rfl
      · rw [if_neg (by decide), if_pos (Or.inl hto), if_neg fun hboth => hto hboth.1]
        rfl

/-- INTERNAL: **the rule that is parsed is the rule that is written**, and a line that writes
none is refused.
SOURCE: conf.c:539-662 -/
theorem parseFirewallRule_eq {arg : Text} (h : Trimmed (arg.map Char.toLower)) :
    (parseFirewallRule arg).toOption = writtenRule arg := by
  unfold writtenRule parseFirewallRule
  generalize arg.map Char.toLower = s at h
  rcases toNextWord_spec h with ⟨rfl, hnext⟩ | ⟨rest, hnext, hwords, hrest⟩
  · rfl
  · rw [hwords, ruleOfWords, hnext]
    dsimp only
    cases targetOfWord (s.takeWhile fun c => !isBlank c) with
    | none => rfl
    | some target =>
      obtain ⟨protocol, rest', hparse, htake, hrest'⟩ := parseProtocol_spec hrest
      simp only [Option.elim_some, hparse, htake]
      rcases parsePort_spec protocol hrest' with ⟨e, hport, hnone⟩ | ⟨port, rest'', hport, hsome,
        hrest''⟩
      · rw [hport, hnone]
        rfl
      · have hmask := parseMask_spec hrest''
        rw [hport, hsome]
        cases hparsed : parseMask rest'' rest''.isEmpty with
        | error e =>
          rw [hparsed] at hmask
          simp only [bind, Option.bind_some, Except.bind, pure, Except.pure, hparsed, ← hmask]
          rfl
        | ok mask =>
          rw [hparsed] at hmask
          simp only [bind, Option.bind_some, Except.bind, pure, Except.pure, hparsed, ← hmask]
          rfl

/-! ## The lines of a file and the loops -/

/-- INTERNAL: the text that the loops see.
SOURCE: conf.c:705-728 -/
theorem stripWhitespace_fst (l : Line) : (stripWhitespace l).1 = lineText l.piece := rfl

/-- INTERNAL: a text that ends in a character that is no white space, or is empty. -/
theorem trimRight_last {s : Text} {c : Char} (h : (trimRight s).getLast? = some c) :
    isSpace c = false := by
  rw [trimRight, List.getLast?_reverse] at h
  have hhead := List.head?_dropWhile_not isSpace s.reverse
  rw [h] at hhead
  simpa using hhead

theorem lineText_last {l : Text} {c : Char} (h : (lineText l).getLast? = some c) :
    isSpace c = false := trimRight_last h

theorem isSpace_of_isBlank {c : Char} (h : isBlank c = true) : isSpace c = true := by
  simp only [isBlank, Bool.or_eq_true, beq_iff_eq] at h
  rcases h with rfl | rfl <;> rfl

theorem isBlank_toLower (c : Char) : isBlank c.toLower = isBlank c := by
  rw [Bool.eq_iff_iff]
  simp only [isBlank, Bool.or_eq_true, beq_iff_eq]
  rw [toLower_eq_iff (by decide), toLower_eq_iff (by decide)]

/-- INTERNAL: an argument has no blank at its ends.
SOURCE: conf.c:708-727, 512-516 -/
theorem trimmed_argument {s : Text} (h : ∀ c, s.getLast? = some c → isSpace c = false) {n : ℕ} :
    Trimmed (((s.drop n).dropWhile isBlank).map Char.toLower) := by
  constructor
  · intro c hc
    rw [List.head?_map] at hc
    obtain ⟨d, hd, rfl⟩ := Option.map_eq_some_iff.mp hc
    have hhead := List.head?_dropWhile_not isBlank (s.drop n)
    rw [hd] at hhead
    rw [isBlank_toLower]
    simpa using hhead
  · intro c hc
    rw [List.getLast?_map] at hc
    obtain ⟨d, hd, rfl⟩ := Option.map_eq_some_iff.mp hc
    obtain ⟨pre, hpre⟩ := (List.dropWhile_suffix isBlank).trans (List.drop_suffix n s)
    have hne : (s.drop n).dropWhile isBlank ≠ [] := by
      intro hnil
      rw [hnil] at hd
      cases hd
    have hlast := h d (by rw [← hpre, List.getLast?_append_of_ne_nil _ hne, hd])
    rw [isBlank_toLower]
    by_contra hblank
    rw [isSpace_of_isBlank (by simpa using hblank)] at hlast
    cases hlast

/-- INTERNAL: the option and its argument.
SOURCE: conf.c:1038-1054, 500-516 -/
theorem splitOption_eq_some {isEnd : Char → Bool} {s option arg : Text}
    (h : splitOption isEnd s = some (option, arg)) :
    ∃ d rest, s = option ++ d :: rest ∧ isEnd d = true ∧ (∀ c ∈ option, isEnd c = false) ∧
      arg = rest.dropWhile isBlank := by
  have hs := List.takeWhile_append_dropWhile (p := fun c => !isEnd c) (l := s)
  have hstop := List.head?_dropWhile_not (fun c => !isEnd c) s
  unfold splitOption at h
  split at h
  · cases h
  · next d rest hdrop =>
    obtain ⟨rfl, rfl⟩ := Prod.mk.inj (Option.some.inj h)
    rw [hdrop] at hs hstop
    refine ⟨d, rest, hs.symm, by simpa using hstop, fun c hc => ?_, rfl⟩
    simpa using List.mem_takeWhile_imp hc

/-- INTERNAL: the keyword and the argument of a line whose option is no longer than its first
word. -/
theorem lineKeyword_of_split {l : Text} {isEnd : Char → Bool}
    (hend : ∀ c, isEnd c = true → isSpace c = true) {option arg : Text}
    (h : splitOption isEnd (lineText l) = some (option, arg))
    (hword : ∀ c ∈ option, isSpace c = false) :
    lineKeyword l = option ∧ lineArgument l = arg := by
  obtain ⟨d, rest, hs, hd, -, rfl⟩ := splitOption_eq_some h
  have hkeyword : lineKeyword l = option := by
    have hall : ∀ c ∈ option, (!isSpace c) = true := fun c hc => by simp [hword c hc]
    rw [lineKeyword, hs, List.takeWhile_append_of_pos hall,
      List.takeWhile_cons_of_neg (by simp [hend d hd]), List.append_nil]
  refine ⟨hkeyword, ?_⟩
  rw [lineArgument, hkeyword, hs, show option ++ d :: rest = (option ++ [d]) ++ rest by simp,
    List.drop_left' (by simp)]

/-- INTERNAL: a word that is another one but for the case has no white space either. -/
theorem not_isSpace_of_sameCase {option name : Text} (hname : ∀ c ∈ name, isSpace c.toLower = false)
    (h : sameCase option name = true) : ∀ c ∈ option, isSpace c = false := by
  intro c hc
  have hmem : c.toLower ∈ name.map Char.toLower :=
    (sameCase_iff option name).mp h ▸ List.mem_map_of_mem hc
  obtain ⟨d, hd, hcd⟩ := List.mem_map.mp hmem
  have hlower := hname d hd
  rw [hcd] at hlower
  by_contra hspace
  simp only [isSpace, Bool.not_eq_false, Bool.or_eq_true, beq_iff_eq] at hspace
  have hself : c.toLower = c := by
    rcases hspace with ((((rfl | rfl) | rfl) | rfl) | rfl) | rfl <;> rfl
  rw [hself] at hlower
  simp only [isSpace, Bool.or_eq_false_iff, beq_eq_false_iff_ne] at hlower
  tauto

/-- INTERNAL: what the loop of a block does with a line is what the line says.
SOURCE: conf.c:490-531 -/
theorem blockEffect_cases (l : Line) :
    (blockEffect l = .skip ∧ (lineText l.piece).head? ≠ some '}' ∧
        sameCase (lineKeyword l.piece) "firewallrule".toList = false) ∨
      (blockEffect l = .close ∧ (lineText l.piece).head? = some '}') ∨
      blockEffect l = .stop ∨
      (blockEffect l = .rule (lineArgument l.piece) ∧ (lineText l.piece).head? ≠ some '}' ∧
        sameCase (lineKeyword l.piece) "firewallrule".toList = true) := by
  unfold blockEffect
  dsimp only
  rw [stripWhitespace_fst]
  split
  · next hnil =>
    refine Or.inl ⟨rfl, ?_, ?_⟩
    · rw [hnil]
      simp
    · rw [lineKeyword, hnil]
      decide
  · split
    · next hclose => exact Or.inr (Or.inl ⟨rfl, hclose⟩)
    · next hclose =>
      cases hsplit : splitOption isBlank (lineText l.piece) with
      | none => exact Or.inr (Or.inr (Or.inl rfl))
      | some r =>
        obtain ⟨option, arg⟩ := r
        dsimp only
        split
        · next hop =>
          have hsame := opcode_firewallRule_iff.mp hop
          have hword := not_isSpace_of_sameCase (by decide) hsame
          obtain ⟨hkeyword, harg⟩ :=
            lineKeyword_of_split (fun c hc => isSpace_of_isBlank hc) hsplit hword
          exact Or.inr (Or.inr (Or.inr ⟨by rw [harg], hclose, by rw [hkeyword, hsame]⟩))
        · exact Or.inr (Or.inr (Or.inl rfl))

/-- INTERNAL: the name of a ruleset is the first word of the argument.
SOURCE: conf.c:471-475 -/
theorem getRuleset_firstWord {arg : Text} (h : ∀ c, arg.head? = some c → isBlank c = false) :
    getRuleset (arg.takeWhile fun c => !isBlank c) =
      (words isBlank arg).head?.bind getRuleset := by
  cases arg with
  | nil => rfl
  | cons c arg =>
    rw [words_cons (h c rfl), List.head?_cons, Option.bind_some]

/-- INTERNAL: what `config_read` does with a line is what the line says.
SOURCE: conf.c:1027-1059 -/
theorem lineEffect_cases (l : Line) :
    (∃ arg, lineEffect l = .block arg ∧
        getRuleset (arg.takeWhile fun c => !isBlank c) = opensBlock l.piece) ∨
      lineEffect l = .stop ∨
      ((lineEffect l = .skip ∨ ∃ op arg after, lineEffect l = .option op arg after) ∧
        opensBlock l.piece = none) := by
  unfold lineEffect
  dsimp only
  rw [stripWhitespace_fst]
  split
  · next hnil =>
    refine Or.inr (Or.inr ⟨Or.inl rfl, ?_⟩)
    rw [opensBlock, lineKeyword, hnil, if_neg (by decide)]
  · cases hsplit : splitOption isSpace (lineText l.piece) with
    | none => exact Or.inr (Or.inl rfl)
    | some r =>
      obtain ⟨option, arg⟩ := r
      obtain ⟨d, rest, -, -, hword, hrest⟩ := splitOption_eq_some hsplit
      obtain ⟨hkeyword, harg⟩ := lineKeyword_of_split (fun c hc => hc) hsplit hword
      dsimp only
      split
      · next hop =>
        refine Or.inl ⟨arg, rfl, ?_⟩
        rw [opensBlock, hkeyword, if_pos (opcode_firewallRuleSet_iff.mp hop), harg]
        refine getRuleset_firstWord fun c hc => ?_
        have hhead := List.head?_dropWhile_not isBlank rest
        rw [← hrest, hc] at hhead
        simpa using hhead
      · next hop =>
        refine Or.inr (Or.inr ⟨Or.inr ⟨_, _, _, rfl⟩, ?_⟩)
        rw [opensBlock, hkeyword, if_neg (mt opcode_firewallRuleSet_iff.mpr hop)]

/-! ## The rules that are kept -/

/-- The rules of one ruleset that the parser makes of lines. -/
def acceptedRules (name : RulesetName) (ls : List (RulesetName × Text)) : List FirewallRule :=
  (ls.filter (·.1 = name)).filterMap fun l => (parseFirewallRule l.2).toOption

theorem acceptedRules_cons (name : RulesetName) (l : RulesetName × Text)
    (ls : List (RulesetName × Text)) :
    acceptedRules name (l :: ls) =
      (if l.1 = name then (parseFirewallRule l.2).toOption.toList else []) ++
        acceptedRules name ls := by
  unfold acceptedRules
  by_cases h : l.1 = name
  · rw [List.filter_cons_of_pos (by simpa using h), if_pos h, List.filterMap_cons]
    cases (parseFirewallRule l.2).toOption <;> rfl
  · rw [List.filter_cons_of_neg (by simpa using h), if_neg h]
    rfl

/-- INTERNAL: a rule goes to the end of its ruleset, if the parser makes one.
SOURCE: conf.c:521-523, 637-660 -/
theorem addFirewallRule_rules (name name' : RulesetName) (arg : Text) (c : FileConfig) :
    (addFirewallRule name arg c).rules name' =
      c.rules name' ++ if name = name' then (parseFirewallRule arg).toOption.toList else [] := by
  unfold addFirewallRule
  cases parseFirewallRule arg with
  | error e =>
    change c.rules name' = c.rules name' ++ if name = name' then [] else []
    rw [ite_self, List.append_nil]
  | ok rule =>
    dsimp only
    by_cases h : name = name'
    · subst h
      rw [Function.update_self, if_pos rfl]
      rfl
    · rw [Function.update_of_ne (Ne.symm h), if_neg h, List.append_nil]

/-- INTERNAL: what a block adds, and what the lines behind it add, is what the lines add.
SOURCE: conf.c:488-533 -/
theorem rulesetLoop_rules {name : RulesetName} {ls rest : List Line} {c c' : FileConfig}
    (h : rulesetLoop name ls c = some (rest, c')) (name' : RulesetName) :
    c'.rules name' ++ acceptedRules name' (ruleLines none (rest.map Line.piece)) =
      c.rules name' ++ acceptedRules name' (ruleLines (some name) (ls.map Line.piece)) := by
  induction ls generalizing c with
  | nil =>
    cases h
    rfl
  | cons l ls ih =>
    rw [rulesetLoop_cons] at h
    rw [List.map_cons, ruleLines]
    rcases blockEffect_cases l with ⟨heff, hopen, hother⟩ | ⟨heff, hclose⟩ | heff |
      ⟨heff, hopen, hrule⟩
    · rw [heff] at h
      rw [if_neg hopen, hother]
      exact ih h
    · rw [heff] at h
      cases h
      rw [if_pos hclose]
    · rw [heff] at h
      cases h
    · rw [heff] at h
      rw [if_neg hopen, if_pos hrule, ih h, addFirewallRule_rules, acceptedRules_cons,
        List.append_assoc]

/-- INTERNAL: no option but a block changes the rules.
SOURCE: conf.c:1059-1352 -/
theorem apply_rules {op : OpCode} {arg after : Text} {c c' : FileConfig}
    (h : op.apply arg after c = some c') : c'.rules = c.rules := by
  funext name
  refine (footprint_apply op arg after).frame c c' h (.rules name) ?_
  intro hwrites
  cases op with
  | emptyRuleSetPolicy =>
    obtain ⟨_, -, hpart⟩ := Option.map_eq_some_iff.mp hwrites
    cases hpart
  | _ => cases hwrites

/-- INTERNAL: **the rules of a file that is accepted** are those the parser makes of the lines
of its blocks.
SOURCE: conf.c:465-534, 1025-1354 -/
theorem readLines_rules {ls : List Line} {c c' : FileConfig} (h : readLines ls c = some c')
    (name : RulesetName) :
    c'.rules name = c.rules name ++ acceptedRules name (ruleLines none (ls.map Line.piece)) := by
  induction hn : ls.length using Nat.strong_induction_on generalizing ls c with
  | _ n ih =>
    cases ls with
    | nil =>
      cases h
      simp [ruleLines, acceptedRules]
    | cons l ls =>
      rw [List.length_cons] at hn
      rw [readLines_cons] at h
      rw [List.map_cons, ruleLines]
      rcases lineEffect_cases l with ⟨arg, heff, hopen⟩ | heff | ⟨heff, hopen⟩
      · rw [heff] at h
        obtain ⟨⟨rest, c₁⟩, hblock, h⟩ := Option.bind_eq_some_iff.mp h
        obtain ⟨name', hname, hloop⟩ := Option.bind_eq_some_iff.mp hblock
        rw [ih rest.length (by have := rulesetLoop_length hloop; omega) h rfl,
          rulesetLoop_rules hloop, ← hopen, hname]
      · rw [heff] at h
        cases h
      · rw [hopen]
        rcases heff with heff | ⟨op, arg, after, heff⟩
        · rw [heff] at h
          exact ih ls.length (by omega) h rfl
        · rw [heff] at h
          obtain ⟨c₁, happly, h⟩ := Option.bind_eq_some_iff.mp h
          rw [ih ls.length (by omega) h rfl, apply_rules happly]

/-- INTERNAL: the texts of the lines that are read. -/
theorem fileLines_piece (file : Text) (beyond : ℕ → Text) :
    (fileLines file beyond).map Line.piece = pieces MAX_LINE file := by
  rw [fileLines, List.map_map]
  exact List.zipIdx_map_fst 0 _

/-- INTERNAL: every rule line has an argument that the parser reads as it is written. -/
theorem ruleLines_parse {block : Option RulesetName} {ls : List Text} :
    ∀ l ∈ ruleLines block ls, (parseFirewallRule l.2).toOption = writtenRule l.2 := by
  induction ls generalizing block with
  | nil =>
    intro l hl
    cases block <;> cases hl
  | cons k ls ih =>
    cases block with
    | none => exact ih
    | some name =>
      unfold ruleLines
      split
      · exact ih
      · split
        · intro l hl
          rcases List.mem_cons.mp hl with rfl | hl
          · exact parseFirewallRule_eq (trimmed_argument fun c hc => lineText_last hc)
          · exact ih l hl
        · exact ih

/-- The rules that the lines of a ruleset's blocks write, one for each line; a line that writes
none counts as well. -/
def writtenRules (name : RulesetName) (ls : List (RulesetName × Text)) :
    List (Option FirewallRule) :=
  (ls.filter (·.1 = name)).map fun l => writtenRule l.2

/-- INTERNAL: every line counts exactly when none of them is dropped. -/
theorem filterMap_eq_map_iff {α β : Type} {f : α → Option β} {l : List α} :
    (l.filterMap f).map some = l.map f ↔ ∀ a ∈ l, f a ≠ none := by
  induction l with
  | nil => simp
  | cons a l ih =>
    cases hf : f a with
    | none =>
      rw [List.filterMap_cons_none hf]
      constructor
      · intro h
        have hlen := congrArg List.length h
        have hle := List.length_filterMap_le f l
        simp only [List.length_map, List.length_cons] at hlen
        omega
      · intro h
        exact absurd hf (h a List.mem_cons_self)
    | some b =>
      rw [List.filterMap_cons_some hf, List.map_cons, List.map_cons, hf, List.cons.injEq, ih]
      simp [hf]

/-- The pieces of at most 4095 bytes that `fgets` makes of the lines write the same rules for each
ruleset as the lines. -/
def SameRules (file : Text) : Prop :=
  ∀ name, (writtenRules name (ruleLines none (pieces MAX_LINE file))).reduceOption =
    (writtenRules name (ruleLines none (lines file))).reduceOption

/-- They do when each line fits the buffer. -/
theorem sameRules_of_fits {file : Text} (h : ∀ l ∈ lines file, l.length ≤ MAX_LINE - 1) :
    SameRules file := fun name => by rw [pieces_eq_lines (by decide) h]

/-- The rules that the parser makes of lines are those that the lines write. -/
theorem acceptedRules_eq (name : RulesetName) (ls : List Text) :
    acceptedRules name (ruleLines none ls) =
      (writtenRules name (ruleLines none ls)).reduceOption := by
  have hparse : acceptedRules name (ruleLines none ls) =
      ((ruleLines none ls).filter (·.1 = name)).filterMap fun l => writtenRule l.2 :=
    List.filterMap_congr fun l hl => ruleLines_parse l (List.mem_of_mem_filter hl)
  have hwritten : (writtenRules name (ruleLines none ls)).reduceOption =
      ((ruleLines none ls).filter (·.1 = name)).filterMap (id ∘ fun l => writtenRule l.2) :=
    List.filterMap_map
  exact hparse.trans hwritten.symm

/-- INTERNAL: rules that are kept are all that is written exactly when no line is refused. -/
theorem acceptedRules_eq_iff {file : Text} :
    (∀ name, (acceptedRules name (ruleLines none (pieces MAX_LINE file))).map some =
        writtenRules name (ruleLines none (lines file))) ↔
      (∀ l ∈ ruleLines none (lines file), (parseFirewallRule l.2).toOption ≠ none) ∧
        SameRules file := by
  have hwritten : ∀ name, writtenRules name (ruleLines none (lines file)) =
      ((ruleLines none (lines file)).filter (·.1 = name)).map fun l =>
        (parseFirewallRule l.2).toOption := fun name =>
    List.map_congr_left fun l hl => (ruleLines_parse l (List.mem_of_mem_filter hl)).symm
  have hkept : (∀ l ∈ ruleLines none (lines file), (parseFirewallRule l.2).toOption ≠ none) →
      ∀ name, (acceptedRules name (ruleLines none (lines file))).map some =
        writtenRules name (ruleLines none (lines file)) := by
    intro hnone name
    rw [hwritten, acceptedRules, filterMap_eq_map_iff]
    exact fun l hl => hnone l (List.mem_of_mem_filter hl)
  unfold SameRules
  simp only [← acceptedRules_eq]
  constructor
  · intro hall
    have hnone : ∀ l ∈ ruleLines none (lines file), (parseFirewallRule l.2).toOption ≠ none := by
      intro l hl hrefused
      have hblock : l ∈ (ruleLines none (lines file)).filter (·.1 = l.1) :=
        List.mem_filter.mpr ⟨hl, by simp⟩
      have hmem : none ∈ writtenRules l.1 (ruleLines none (lines file)) := by
        rw [hwritten]
        exact List.mem_map.mpr ⟨l, hblock, hrefused⟩
      rw [← hall l.1] at hmem
      obtain ⟨rule, -, hrule⟩ := List.mem_map.mp hmem
      cases hrule
    refine ⟨hnone, fun name => ?_⟩
    exact List.map_injective_iff.mpr (Option.some_injective _)
      ((hall name).trans (hkept hnone name).symm)
  · rintro ⟨hnone, hsame⟩ name
    rw [hsame]
    exact hkept hnone name

/-- **Every `FirewallRule` line counts**, in the order of the file, exactly when the parser refuses
none of those inside a block, and reading the lines in pieces gives the same rules, as it does when
each line fits the buffer.
SOURCE: conf.c:465-662, 1010-1112 -/
theorem rule_lines_count_iff {file : Text} {beyond : ℕ → Text} {c c' : FileConfig}
    (h : configRead file beyond c = some c') :
    let count := ∀ name, (c'.rules name).map some =
      (c.rules name).map some ++ writtenRules name (ruleLines none (lines file))
    let taken := ∀ l ∈ ruleLines none (lines file), (parseFirewallRule l.2).toOption ≠ none
    (count ↔ taken ∧ SameRules file) ∧
      ((∀ l ∈ lines file, l.length ≤ MAX_LINE - 1) → (count ↔ taken)) := by
  intro count taken
  have hrules : ∀ name, c'.rules name =
      c.rules name ++ acceptedRules name (ruleLines none (pieces MAX_LINE file)) := fun name => by
    rw [readLines_rules h name, fileLines_piece]
  have hiff : count ↔ taken ∧ SameRules file := by
    rw [← acceptedRules_eq_iff]
    refine forall_congr' fun name => ?_
    rw [hrules, List.map_append, List.append_cancel_left_eq]
  exact ⟨hiff, fun hfits => hiff.trans (and_iff_left (sameRules_of_fits hfits))⟩

/-- A file with two rules. -/
def sampleRuleFile : Text :=
  ("FirewallRuleSet users-to-router \x7b\n" ++
    "  FirewallRule allow tcp port 22  # ssh\n" ++
    "  FirewallRule block udp to 10.0.0.0/8\n" ++ "\x7d\n").toList

/-- Both of them count. -/
theorem rule_lines_count_iff_sample :
    ∃ c', configRead sampleRuleFile (fun _ => []) {} = some c' ∧
      ∀ name, (c'.rules name).map some =
        writtenRules name (ruleLines none (lines sampleRuleFile)) := by
  obtain ⟨c', hc'⟩ : ∃ c', configRead sampleRuleFile (fun _ => []) {} = some c' :=
    Option.isSome_iff_exists.mp (by decide +kernel)
  refine ⟨c', hc', fun name => ?_⟩
  have hcount := ((rule_lines_count_iff hc').2 (by decide +kernel)).mpr (by decide +kernel)
  exact (hcount name).trans (List.nil_append _)

/-- A file with a rule that the parser refuses: `permit` is no target. -/
def refusedRuleFile : Text :=
  ("FirewallRuleSet users-to-router \x7b\n" ++ "  FirewallRule permit tcp port 22\n" ++
    "  FirewallRule allow udp port 53\n" ++ "\x7d\n").toList

/-- The file is accepted, and the rule is dropped.
SOURCE: conf.c:521-523, 570-574 -/
theorem rule_line_dropped :
    ∃ c', configRead refusedRuleFile (fun _ => []) {} = some c' ∧
      (c'.rules .usersToRouter).map some ≠
        writtenRules .usersToRouter (ruleLines none (lines refusedRuleFile)) ∧
      ∃ l ∈ ruleLines none (lines refusedRuleFile), (parseFirewallRule l.2).toOption = none := by
  obtain ⟨c', hc'⟩ : ∃ c', configRead refusedRuleFile (fun _ => []) {} = some c' :=
    Option.isSome_iff_exists.mp (by decide +kernel)
  have hend : (configRead refusedRuleFile (fun _ => []) {}).map (fun c =>
      decide ((c.rules .usersToRouter).map some ≠
        writtenRules .usersToRouter (ruleLines none (lines refusedRuleFile)))) = some true := by
    decide +kernel
  rw [hc'] at hend
  exact ⟨c', hc', of_decide_eq_true (Option.some.inj hend), by decide +kernel⟩

end WifiCat.Analysis
