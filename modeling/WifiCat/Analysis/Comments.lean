import WifiCat.Analysis.RuleLines

/-!
# Comments of the configuration file

Two files that are the same but for their comments.  A line's text does not depend on its
comment; `parse_empty_ruleset_policy` reads on behind the text of a line that ends with the
name of the ruleset, and finds the comment there.  `PolicyInLine` says that it does not.
-/

set_option autoImplicit false

namespace WifiCat.Analysis

open Scan TextLines

/-! ## Files that are the same but for their comments -/

/-- Two lines that are the same but for what follows a `#` without a backslash, up to the
newline. -/
def SameLine (a b : Text) : Prop :=
  a = b ∨ ∃ pre t u nl, a = pre ++ '#' :: (t ++ nl) ∧ b = pre ++ '#' :: (u ++ nl) ∧
    pre.getLast? ≠ some '\\' ∧ '\n' ∉ t ∧ '\n' ∉ u

/-- Two files whose lines are the same but for comments. -/
def SameButComments (f g : Text) : Prop := List.Forall₂ SameLine (lines f) (lines g)

/-- Every line fits the buffer, with its newline. -/
def LinesFit (f : Text) : Prop := ∀ l ∈ lines f, l.length ≤ MAX_LINE - 1

/-- The part of a line before its comment. -/
def lineBody (l : Text) : Text := uncomment none (cString l)

/-- An `EmptyRuleSetPolicy` line has a policy behind the name of the ruleset, or white space
between the name and the comment; a newline is white space. -/
def PolicyInLine (l : Text) : Prop :=
  sameCase (lineKeyword l) "emptyrulesetpolicy".toList = true →
    lineArgument l = [] ∨ (lineArgument l).any isBlank = true ∨
      (lineBody l).getLast?.any isSpace = true

instance (f : Text) : Decidable (LinesFit f) := inferInstanceAs (Decidable (∀ _ ∈ _, _))

instance (l : Text) : Decidable (PolicyInLine l) := inferInstanceAs (Decidable (_ → _))

/-! ## The text of a line -/

/-- INTERNAL: what follows an unescaped `#` is not looked at.
SOURCE: conf.c:710-720 -/
theorem uncomment_append {prev : Option Char} {pre : Text}
    (h : pre.getLast?.or prev ≠ some '\\') (x y : Text) :
    uncomment prev (pre ++ '#' :: x) = uncomment prev (pre ++ '#' :: y) := by
  induction pre generalizing prev with
  | nil =>
    have hprev : prev ≠ some '\\' := h
    simp [uncomment, hprev]
  | cons c pre ih =>
    rw [List.cons_append, List.cons_append, uncomment, uncomment]
    by_cases hc : c = '#' ∧ prev ≠ some '\\'
    · rw [if_pos hc, if_pos hc]
    · rw [if_neg hc, if_neg hc, ih]
      cases pre with
      | nil => exact h
      | cons d pre => exact h

/-- INTERNAL: lines that are the same but for comments have the same text.
SOURCE: conf.c:705-728 -/
theorem SameLine.body {a b : Text} (h : SameLine a b) : lineBody a = lineBody b := by
  rcases h with rfl | ⟨pre, t, u, nl, rfl, rfl, hlast, -, -⟩
  · rfl
  · unfold lineBody cString
    by_cases hnul : ∀ c ∈ pre, (c != '\x00') = true
    · rw [List.takeWhile_append_of_pos hnul, List.takeWhile_append_of_pos hnul,
        List.takeWhile_cons_of_pos (by decide), List.takeWhile_cons_of_pos (by decide)]
      exact uncomment_append (by rwa [Option.or_none]) _ _
    · -- the string ends before the comment
      have hshort : pre.takeWhile (· != '\x00') ≠ pre := fun h =>
        hnul (List.takeWhile_eq_self_iff.mp h)
      have hlen : (pre.takeWhile (· != '\x00')).length ≠ pre.length := fun h =>
        hshort ((List.takeWhile_prefix _).eq_of_length h)
      rw [List.takeWhile_append, if_neg hlen, List.takeWhile_append, if_neg hlen]

theorem lineText_body (l : Text) : lineText l = trimRight ((lineBody l).dropWhile isSpace) := rfl

/-- INTERNAL: what a line says depends on its text. -/
theorem lineText_congr {a b : Text} (h : lineBody a = lineBody b) : lineText a = lineText b := by
  rw [lineText_body, lineText_body, h]

/-! ## What stands behind the text -/

/-- INTERNAL: white space before the comment became a `NUL`.
SOURCE: conf.c:724-726 -/
theorem cString_after {l : Line} (h : (lineBody l.piece).getLast?.any isSpace = true)
    (hne : lineText l.piece ≠ []) : cString (stripWhitespace l).2 = [] := by
  set body := lineBody l.piece with hbody
  have htrim : (trimRight (body.dropWhile isSpace)).length < (body.dropWhile isSpace).length := by
    have hne' : body.dropWhile isSpace ≠ [] := by
      intro hnil
      rw [lineText_body, ← hbody, hnil] at hne
      exact hne rfl
    obtain ⟨pre, hpre⟩ := List.dropWhile_suffix (l := body) isSpace
    have hlast : (body.dropWhile isSpace).getLast?.any isSpace = true := by
      rw [← hpre, List.getLast?_append_of_ne_nil _ hne'] at h
      exact h
    generalize body.dropWhile isSpace = s at hne' hlast
    obtain ⟨t, c, rfl⟩ : ∃ t c, s = t ++ [c] :=
      ⟨_, _, (List.dropLast_append_getLast hne').symm⟩
    rw [List.getLast?_concat] at hlast
    have hc : isSpace c = true := hlast
    rw [trimRight, List.reverse_append, List.reverse_singleton, List.singleton_append,
      List.dropWhile_cons_of_pos hc, List.length_reverse, List.length_append,
      List.length_singleton]
    have hle := (List.dropWhile_suffix (l := t.reverse) isSpace).length_le
    rw [List.length_reverse] at hle
    omega
  have hk : (body.dropWhile isSpace).length -
      (trimRight (body.dropWhile isSpace)).length ≠ 0 := by omega
  obtain ⟨k, hk⟩ := Nat.exists_eq_succ_of_ne_zero hk
  change cString (List.replicate ((body.dropWhile isSpace).length -
    (trimRight (body.dropWhile isSpace)).length) '\x00' ++ _) = []
  rw [hk]
  rfl

/-! ## Two runs -/

/-- Two lines with the same text, neither of which is read beyond its text. -/
def Alike (l l' : Line) : Prop :=
  lineBody l.piece = lineBody l'.piece ∧ PolicyInLine l.piece

/-- INTERNAL: a policy of the line is the policy that is read.
SOURCE: conf.c:411-458 -/
theorem parseEmptyRulesetPolicy_after {arg after after' : Text}
    (hstart : ∀ c, arg.head? = some c → isBlank c = false)
    (h : arg = [] ∨ arg.any isBlank = true ∨ cString after = cString after') (c : FileConfig) :
    parseEmptyRulesetPolicy arg after c = parseEmptyRulesetPolicy arg after' c := by
  have hskip : arg.dropWhile isBlank = arg := by
    cases arg with
    | nil => rfl
    | cons d arg => exact List.dropWhile_cons_of_neg (by simp [hstart d rfl])
  unfold parseEmptyRulesetPolicy
  rw [hskip]
  rcases h with rfl | hany | hafter
  · rfl
  · cases hrest : arg.dropWhile fun c => !isBlank c with
    | nil =>
      have hall := List.dropWhile_eq_nil_iff.mp hrest
      obtain ⟨d, hd, hblank⟩ := List.any_eq_true.mp hany
      have hnot := hall d hd
      rw [hblank] at hnot
      cases hnot
    | cons d rest => simp only [hrest]
  · rw [hafter]

/-- INTERNAL: only a policy looks behind the text.
SOURCE: conf.c:1059-1352 -/
theorem apply_after {op : OpCode} (h : op ≠ .emptyRuleSetPolicy) (arg after after' : Text)
    (c : FileConfig) : op.apply arg after c = op.apply arg after' c := by
  cases op with
  | text o => cases o <;> rfl
  | number o => cases o <;> rfl
  | boolean o => cases o <;> rfl
  | emptyRuleSetPolicy => exact absurd rfl h
  | _ => rfl

/-- INTERNAL: the keyword and argument of an option.
SOURCE: conf.c:1038-1057 -/
theorem lineEffect_option {l : Line} {op : OpCode} {arg after : Text}
    (h : lineEffect l = .option op arg after) :
    configParseOpcode (lineKeyword l.piece) = op ∧ lineArgument l.piece = arg ∧
      after = (stripWhitespace l).2 ∧ lineText l.piece ≠ [] ∧
      ∀ c, arg.head? = some c → isBlank c = false := by
  unfold lineEffect at h
  dsimp only at h
  rw [stripWhitespace_fst] at h
  split at h
  · cases h
  · next hne =>
    cases hsplit : splitOption isSpace (lineText l.piece) with
    | none =>
      rw [hsplit] at h
      cases h
    | some r =>
      obtain ⟨option, arg'⟩ := r
      obtain ⟨d, rest, -, -, hword, hrest⟩ := splitOption_eq_some hsplit
      obtain ⟨hkeyword, harg⟩ := lineKeyword_of_split (fun c hc => hc) hsplit hword
      rw [hsplit] at h
      dsimp only at h
      split at h
      · cases h
      · cases h
        refine ⟨by rw [hkeyword], harg, rfl, hne, fun c hc => ?_⟩
        have hhead := List.head?_dropWhile_not isBlank rest
        rw [← hrest, hc] at hhead
        simpa using hhead

/-- INTERNAL: lines with the same text do the same, but for what is read behind the text. -/
theorem lineEffect_congr {l l' : Line} (h : lineBody l.piece = lineBody l'.piece) :
    lineEffect l = lineEffect l' ∨ ∃ op arg, lineEffect l = .option op arg (stripWhitespace l).2 ∧
      lineEffect l' = .option op arg (stripWhitespace l').2 := by
  unfold lineEffect
  dsimp only
  rw [stripWhitespace_fst, stripWhitespace_fst, lineText_congr h]
  split
  · exact Or.inl rfl
  · cases splitOption isSpace (lineText l'.piece) with
    | none => exact Or.inl rfl
    | some r =>
      dsimp only
      split
      · exact Or.inl rfl
      · exact Or.inr ⟨_, _, rfl, rfl⟩

theorem blockEffect_congr {l l' : Line} (h : lineBody l.piece = lineBody l'.piece) :
    blockEffect l = blockEffect l' := by
  unfold blockEffect
  dsimp only
  rw [stripWhitespace_fst, stripWhitespace_fst, lineText_congr h]

/-- INTERNAL: an option of a line that is not read beyond its text does the same for both
lines. -/
theorem Alike.apply {l l' : Line} (h : Alike l l') {op : OpCode} {arg : Text}
    (heff : lineEffect l = .option op arg (stripWhitespace l).2) (c : FileConfig) :
    op.apply arg (stripWhitespace l).2 c = op.apply arg (stripWhitespace l').2 c := by
  obtain ⟨hop, harg, -, hne, hstart⟩ := lineEffect_option heff
  by_cases hpolicy : op = .emptyRuleSetPolicy
  · subst hpolicy
    have hinline := h.2 (opcode_emptyRuleSetPolicy_iff.mp hop)
    rw [harg] at hinline
    refine parseEmptyRulesetPolicy_after hstart ?_ c
    refine hinline.imp_right fun hinline => hinline.imp_right fun hspace => ?_
    rw [cString_after hspace hne, cString_after (h.1 ▸ hspace) (lineText_congr h.1 ▸ hne)]
  · exact apply_after hpolicy arg _ _ c

/-- INTERNAL: a block does the same for both files, and leaves them at the same place. -/
theorem rulesetLoop_congr {name : RulesetName} {ls ls' : List Line}
    (h : List.Forall₂ Alike ls ls') (c : FileConfig) :
    (rulesetLoop name ls c = none ∧ rulesetLoop name ls' c = none) ∨
      ∃ rest rest' c', rulesetLoop name ls c = some (rest, c') ∧
        rulesetLoop name ls' c = some (rest', c') ∧ List.Forall₂ Alike rest rest' := by
  induction h generalizing c with
  | nil => exact Or.inr ⟨[], [], c, rfl, rfl, .nil⟩
  | cons hl hls ih =>
    rw [rulesetLoop_cons, rulesetLoop_cons, blockEffect_congr hl.1]
    split
    · exact ih c
    · exact Or.inr ⟨_, _, c, rfl, rfl, hls⟩
    · exact Or.inl ⟨rfl, rfl⟩
    · exact ih _

/-- INTERNAL: two files of such lines are read alike. -/
theorem readLines_congr {ls ls' : List Line} (h : List.Forall₂ Alike ls ls') (c : FileConfig) :
    readLines ls c = readLines ls' c := by
  induction hn : ls.length using Nat.strong_induction_on generalizing ls ls' c with
  | _ n ih =>
    cases h with
    | nil => rfl
    | cons hl hls =>
      rename_i l l' ls ls'
      rw [List.length_cons] at hn
      have hrest : ∀ c, readLines ls c = readLines ls' c := fun c => ih ls.length (by omega) hls c rfl
      rw [readLines_cons, readLines_cons]
      rcases lineEffect_congr hl.1 with heff | ⟨op, arg, heff, heff'⟩
      · rw [heff]
        cases lineEffect l' with
        | skip => exact hrest c
        | stop => rfl
        | block arg =>
          dsimp only
          unfold parseFirewallRuleset
          cases getRuleset (arg.takeWhile fun c => !isBlank c) with
          | none => rfl
          | some name =>
            simp only [bind, Option.bind_some]
            rcases rulesetLoop_congr hls c with ⟨h₁, h₂⟩ | ⟨rest, rest', c', h₁, h₂, hrests⟩
            · rw [h₁, h₂]
            · rw [h₁, h₂]
              have hle := rulesetLoop_length h₁
              exact ih rest.length (by omega) hrests c' rfl
        | option op arg after =>
          dsimp only
          exact congrArg (Option.bind _) (funext hrest)
      · rw [heff, heff']
        dsimp only
        rw [hl.apply heff c]
        exact congrArg (Option.bind _) (funext hrest)

/-- INTERNAL: the lines of two files whose texts are alike. -/
theorem alike_fileLines {f g : Text} (h : SameButComments f g) (hf : LinesFit f)
    (hg : LinesFit g) (hpolicy : ∀ l ∈ lines f, PolicyInLine l) (beyond beyond' : ℕ → Text) :
    List.Forall₂ Alike (fileLines f beyond) (fileLines g beyond') := by
  have hlines : List.Forall₂ (fun a b => lineBody a = lineBody b ∧ PolicyInLine a)
      (lines f) (lines g) := by
    refine List.forall₂_iff_get.mpr ⟨h.length_eq, fun i hi hi' => ?_⟩
    exact ⟨(List.forall₂_iff_get.mp h).2 i hi hi' |>.body, hpolicy _ (List.get_mem _ _)⟩
  rw [← pieces_eq_lines (by decide) hf, ← pieces_eq_lines (by decide) hg,
    ← fileLines_piece f beyond, ← fileLines_piece g beyond', List.forall₂_map_left_iff,
    List.forall₂_map_right_iff] at hlines
  exact hlines

theorem sameLine_replace {ls₁ ls₂ : List Text} {l l' : Text} (h : SameLine l l') :
    List.Forall₂ SameLine (ls₁ ++ l :: ls₂) (ls₁ ++ l' :: ls₂) := by
  have hrefl : ∀ ls : List Text, List.Forall₂ SameLine ls ls := fun ls =>
    List.forall₂_same.mpr fun k _ => Or.inl rfl
  exact List.rel_append (hrefl ls₁) (.cons h (hrefl ls₂))

/-! ## A policy that is read of the comment -/

/-- INTERNAL: a text without its comment is the text, or ends before a `#`. -/
theorem uncomment_cases (prev : Option Char) (s : Text) :
    uncomment prev s = s ∨ ∃ t, s = uncomment prev s ++ '#' :: t ∧
      (uncomment prev s).getLast?.or prev ≠ some '\\' := by
  induction s generalizing prev with
  | nil => exact Or.inl rfl
  | cons c s ih =>
    rw [uncomment]
    by_cases hc : c = '#' ∧ prev ≠ some '\\'
    · rw [if_pos hc]
      exact Or.inr ⟨s, by rw [hc.1]; rfl, hc.2⟩
    · rw [if_neg hc]
      rcases ih (some c) with hs | ⟨t, hs, hlast⟩
      · exact Or.inl (by rw [hs])
      · refine Or.inr ⟨t, congrArg (List.cons c) hs, ?_⟩
        cases hu : uncomment (some c) s with
        | nil =>
          rw [hu] at hlast
          exact hlast
        | cons d u =>
          rw [hu] at hlast
          exact hlast

/-- INTERNAL: a text that ends in no white space is kept whole. -/
theorem trimRight_eq_self {s : Text} (h : s.getLast?.any isSpace = false) : trimRight s = s := by
  rw [trimRight]
  cases hrev : s.reverse with
  | nil =>
    rw [List.reverse_eq_nil_iff.mp hrev]
    rfl
  | cons c t =>
    obtain rfl : s = t.reverse ++ [c] := by rw [← List.reverse_cons, ← hrev, List.reverse_reverse]
    rw [List.getLast?_concat] at h
    rw [List.dropWhile_cons_of_neg (by simpa using h), List.reverse_cons]

/-- INTERNAL: what stands behind a line whose text reaches up to its comment. -/
theorem stripWhitespace_snd {l : Line} (h : (lineBody l.piece).getLast?.any isSpace = false)
    (hne : lineText l.piece ≠ []) :
    (stripWhitespace l).2 =
      (l.piece ++ '\x00' :: l.beyond).drop ((lineBody l.piece).length + 1) := by
  have hkept : trimRight ((lineBody l.piece).dropWhile isSpace) =
      (lineBody l.piece).dropWhile isSpace := by
    refine trimRight_eq_self ?_
    obtain ⟨pre, hpre⟩ := List.dropWhile_suffix (l := lineBody l.piece) isSpace
    have hne' : (lineBody l.piece).dropWhile isSpace ≠ [] := by
      intro hnil
      rw [lineText_body, hnil] at hne
      exact hne rfl
    rw [← hpre, List.getLast?_append_of_ne_nil _ hne'] at h
    exact h
  change List.replicate (((lineBody l.piece).dropWhile isSpace).length -
    (trimRight ((lineBody l.piece).dropWhile isSpace)).length) '\x00' ++ _ = _
  rw [hkept, Nat.sub_self]
  rfl

/-- INTERNAL: the effect of a policy line.
SOURCE: conf.c:1038-1057 -/
theorem lineEffect_policy {l : Line}
    (hkeyword : sameCase (lineKeyword l.piece) "emptyrulesetpolicy".toList = true)
    (harg : lineArgument l.piece ≠ []) :
    lineEffect l =
      .option .emptyRuleSetPolicy (lineArgument l.piece) (stripWhitespace l).2 := by
  have hne : lineText l.piece ≠ [] := by
    intro hnil
    rw [lineKeyword, hnil] at hkeyword
    exact absurd hkeyword (by decide)
  unfold lineEffect
  dsimp only
  rw [stripWhitespace_fst, if_neg hne]
  cases hsplit : splitOption isSpace (lineText l.piece) with
  | none =>
    exfalso
    unfold splitOption at hsplit
    split at hsplit
    · next hdrop =>
      have hall : lineKeyword l.piece = lineText l.piece := by
        have hs := List.takeWhile_append_dropWhile (p := fun c => !isSpace c) (l := lineText l.piece)
        rw [hdrop, List.append_nil] at hs
        exact hs
      rw [lineArgument, hall, List.drop_eq_nil_of_le (Nat.le_succ _)] at harg
      exact harg rfl
    · cases hsplit
  | some r =>
    obtain ⟨option, arg⟩ := r
    obtain ⟨d, rest, -, -, hword, -⟩ := splitOption_eq_some hsplit
    obtain ⟨hoption, harg'⟩ := lineKeyword_of_split (fun c hc => hc) hsplit hword
    rw [hoption] at hkeyword
    have hop := opcode_emptyRuleSetPolicy_iff.mpr hkeyword
    dsimp only
    rw [hop, if_neg (by decide), harg']

/-- INTERNAL: in a block a policy line is refused.
SOURCE: conf.c:518-531 -/
theorem blockEffect_policy {l : Line}
    (hkeyword : sameCase (lineKeyword l.piece) "emptyrulesetpolicy".toList = true) :
    blockEffect l = .stop := by
  have hlower := (sameCase_iff _ _).mp hkeyword
  have hne : lineText l.piece ≠ [] := by
    intro hnil
    rw [lineKeyword, hnil] at hkeyword
    exact absurd hkeyword (by decide)
  rcases blockEffect_cases l with ⟨heff, -, -⟩ | ⟨-, hclose⟩ | heff | ⟨-, -, hrule⟩
  · unfold blockEffect at heff
    dsimp only at heff
    rw [stripWhitespace_fst, if_neg hne] at heff
    split at heff
    · cases heff
    · split at heff
      · cases heff
      · split at heff <;> cases heff
  · obtain ⟨c, s, hs⟩ := List.exists_cons_of_ne_nil hne
    rw [hs, List.head?_cons] at hclose
    obtain rfl := Option.some.inj hclose
    rw [lineKeyword, hs, List.takeWhile_cons_of_pos (by decide), List.map_cons] at hlower
    exact absurd (List.cons.inj hlower).1 (by decide)
  · exact heff
  · have hlower' := (sameCase_iff _ _).mp hrule
    rw [hlower] at hlower'
    exact absurd hlower' (by decide)

/-- INTERNAL: the last word of a policy line is no policy when nothing, or only a newline, is
found behind it.
SOURCE: conf.c:432-455 -/
theorem parseEmptyRulesetPolicy_none {arg after : Text}
    (hstart : ∀ c, arg.head? = some c → isBlank c = false) (hblank : arg.any isBlank = false)
    (hafter : cString after = [] ∨ cString after = ['\n']) (c : FileConfig) :
    parseEmptyRulesetPolicy arg after c = none := by
  have hskip : arg.dropWhile isBlank = arg := by
    cases arg with
    | nil => rfl
    | cons d arg => exact List.dropWhile_cons_of_neg (by simp [hstart d rfl])
  have hword : arg.dropWhile (fun c => !isBlank c) = [] := by
    refine List.dropWhile_eq_nil_iff.mpr fun c hc => ?_
    simpa using List.any_eq_false.mp hblank c hc
  have hpolicy : policyOfWord (((cString after).dropWhile isBlank).takeWhile
      fun c => !isBlank c) = none := by
    rcases hafter with hafter | hafter <;> rw [hafter] <;> decide
  unfold parseEmptyRulesetPolicy
  simp only [hskip, hword, hpolicy, bind, Option.bind_none]
  cases getRuleset (arg.takeWhile fun c => !isBlank c) <;> rfl

/-! ## Lines that are refused wherever they stand -/

/-- Lines that are refused, or that end a block before lines that are. -/
def Refuses (ls : List Line) : Prop :=
  (∀ c, readLines ls c = none) ∧
    ∀ name c rest c', rulesetLoop name ls c = some (rest, c') → ∀ c, readLines rest c = none

/-- INTERNAL: a line more in front does not help. -/
theorem Refuses.cons {ls : List Line} (h : Refuses ls) (l : Line) : Refuses (l :: ls) := by
  constructor
  · intro c
    rw [readLines_cons]
    cases lineEffect l with
    | skip => exact h.1 c
    | stop => rfl
    | block arg =>
      dsimp only
      cases hblock : parseFirewallRuleset arg ls c with
      | none => rfl
      | some r =>
        obtain ⟨name, -, hloop⟩ := Option.bind_eq_some_iff.mp hblock
        exact h.2 name c r.1 r.2 hloop r.2
    | option op arg after =>
      dsimp only
      cases op.apply arg after c with
      | none => rfl
      | some c' => exact h.1 c'
  · intro name c rest c' hloop
    rw [rulesetLoop_cons] at hloop
    cases heff : blockEffect l with
    | skip =>
      rw [heff] at hloop
      exact h.2 name c rest c' hloop
    | close =>
      rw [heff] at hloop
      cases hloop
      exact h.1
    | stop =>
      rw [heff] at hloop
      cases hloop
    | rule arg =>
      rw [heff] at hloop
      exact h.2 name _ rest c' hloop

theorem Refuses.append {ls : List Line} (h : Refuses ls) (ls₁ : List Line) :
    Refuses (ls₁ ++ ls) := by
  induction ls₁ with
  | nil => exact h
  | cons l ls₁ ih => exact ih.cons l

/-- INTERNAL: a line that no block takes, and that is refused outside of one. -/
theorem refuses_of_stop {l : Line} {ls : List Line} (hblock : blockEffect l = .stop)
    (h : ∀ c, readLines (l :: ls) c = none) : Refuses (l :: ls) := by
  refine ⟨h, fun name c rest c' hloop => ?_⟩
  rw [rulesetLoop_cons, hblock] at hloop
  cases hloop

/-! ## Other comments -/

/-- A line with a comment. -/
def HasComment (l : Text) : Prop := ∃ pre t, l = pre ++ '#' :: t ∧ pre.getLast? ≠ some '\\'

/-- INTERNAL: a comment ends where the line does, but for its newline. -/
theorem comment_end {pre t : Text}
    (h : Complete (pre ++ '#' :: t) ∨ '\n' ∉ pre ++ '#' :: t) :
    '\n' ∉ pre ∧ ∃ u nl, t = u ++ nl ∧ '\n' ∉ u ∧
      (nl = ['\n'] ∨ nl = [] ∧ ¬ Complete (pre ++ '#' :: t)) := by
  rcases h with ⟨w, hw, hnot⟩ | hnot
  · obtain ⟨u, rfl⟩ : ∃ u, t = u ++ ['\n'] := by
      have htail : ['\n'] <:+ '#' :: t :=
        List.suffix_of_suffix_length_le ⟨w, hw.symm⟩ (List.suffix_append _ _) (by simp)
      rcases List.suffix_cons_iff.mp htail with heq | ⟨u, hu⟩
      · exact absurd (List.cons.inj heq).1 (by decide)
      · exact ⟨u, hu.symm⟩
    have hwu : w = pre ++ '#' :: u := by
      have happend : w ++ ['\n'] = (pre ++ '#' :: u) ++ ['\n'] := by
        rw [← hw]
        simp
      exact List.append_cancel_right happend
    rw [hwu, List.mem_append, List.mem_cons, not_or, not_or] at hnot
    exact ⟨hnot.1, u, ['\n'], rfl, hnot.2.2, Or.inl rfl⟩
  · have hincomplete : ¬ Complete (pre ++ '#' :: t) := by
      rintro ⟨w, hw, -⟩
      rw [hw] at hnot
      simp at hnot
    rw [List.mem_append, List.mem_cons, not_or, not_or] at hnot
    exact ⟨hnot.1, t, [], (List.append_nil t).symm, hnot.2.2, Or.inr ⟨rfl, hincomplete⟩⟩

/-- INTERNAL: any comment may stand in the place of a comment. -/
theorem exists_comment {f pre t : Text} {ls₁ ls₂ : List Text}
    (hlines : lines f = ls₁ ++ (pre ++ '#' :: t) :: ls₂) (hesc : pre.getLast? ≠ some '\\') :
    ∃ u nl, t = u ++ nl ∧ (nl = ['\n'] ∨ nl = [] ∧ ls₂ = []) ∧ '\n' ∉ pre ∧
      ∀ v, '\n' ∉ v →
        SameLine (pre ++ '#' :: t) (pre ++ '#' :: (v ++ nl)) ∧
        lines (ls₁ ++ (pre ++ '#' :: (v ++ nl)) :: ls₂).flatten =
          ls₁ ++ (pre ++ '#' :: (v ++ nl)) :: ls₂ := by
  have hmem : pre ++ '#' :: t ∈ lines f := by simp [hlines]
  obtain ⟨hpre, u, nl, ht, hu, hnl⟩ := comment_end (lines_newline_last hmem).2
  have hlast : nl = ['\n'] ∨ nl = [] ∧ ls₂ = [] := by
    refine hnl.imp_right fun ⟨hnil, hincomplete⟩ => ⟨hnil, ?_⟩
    by_contra hne
    exact hincomplete (complete_of_lines_append hlines hne)
  refine ⟨u, nl, ht, hlast, hpre, fun v hv => ⟨?_, lines_replace hlines ?_⟩⟩
  · exact Or.inr ⟨pre, u, v, nl, by rw [ht], rfl, hesc, hu, hv⟩
  · rcases hlast with rfl | ⟨rfl, rfl⟩
    · exact Or.inl ⟨pre ++ '#' :: v, by simp, by simp [hpre, hv]⟩
    · exact Or.inr ⟨rfl, by simp, by simp [hpre, hv]⟩

/-- INTERNAL: a line whose text reaches up to its comment has a twin with an empty comment. -/
theorem exists_twin {f l : Text} {ls₁ ls₂ : List Text} (hlines : lines f = ls₁ ++ l :: ls₂)
    (hnul : '\x00' ∉ l) (hlast : (lineBody l).getLast?.any isSpace = false) :
    ∃ l', SameLine l l' ∧ lines (ls₁ ++ l' :: ls₂).flatten = ls₁ ++ l' :: ls₂ ∧
      l'.length ≤ l.length ∧
      (cString ((l' ++ ['\x00']).drop ((lineBody l).length + 1)) = [] ∨
        cString ((l' ++ ['\x00']).drop ((lineBody l).length + 1)) = ['\n']) := by
  have hbody : lineBody l = uncomment none l := by
    rw [lineBody, cString, List.takeWhile_eq_self_iff.mpr fun c hc => ?_]
    simpa using fun h : c = '\x00' => hnul (h ▸ hc)
  rcases uncomment_cases none l with hall | ⟨t, ht, hesc⟩
  · refine ⟨l, Or.inl rfl, ?_, le_rfl, Or.inl ?_⟩
    · rw [← hlines, flatten_lines]
    · rw [hbody, hall, List.drop_eq_nil_of_le (by simp)]
      rfl
  · rw [← hbody] at ht hesc
    rw [Option.or_none] at hesc
    generalize lineBody l = body at ht hesc
    subst ht
    obtain ⟨u, nl, rfl, hnl, -, hcomment⟩ := exists_comment hlines hesc
    obtain ⟨hsame, hlines'⟩ := hcomment [] List.not_mem_nil
    refine ⟨_, hsame, hlines', by simp, ?_⟩
    have hdrop : ((body ++ '#' :: ([] ++ nl)) ++ ['\x00']).drop (body.length + 1) =
        nl ++ ['\x00'] := by
      rw [show (body ++ '#' :: ([] ++ nl)) ++ ['\x00'] = (body ++ ['#']) ++ (nl ++ ['\x00']) by
        simp, List.drop_left' (by simp)]
    rw [hdrop]
    rcases hnl with rfl | ⟨rfl, -⟩
    · exact Or.inr rfl
    · exact Or.inl rfl

/-- INTERNAL: a file with a policy line that is read beyond its text is the same, but for
comments, as one that is refused.
SOURCE: conf.c:411-458 -/
theorem exists_refused {f : Text} (hf : LinesFit f) (hnul : '\x00' ∉ f) {l : Text}
    (hl : l ∈ lines f) (hbad : ¬ PolicyInLine l) :
    ∃ g, SameButComments f g ∧ LinesFit g ∧ ∀ c, configRead g (fun _ => []) c = none := by
  unfold PolicyInLine at hbad
  push Not at hbad
  obtain ⟨hkeyword, harg, hblank, hlast⟩ := hbad
  obtain ⟨ls₁, ls₂, hlines⟩ := List.append_of_mem hl
  have hnul' : '\x00' ∉ l := fun h => hnul (flatten_lines f ▸ List.mem_flatten_of_mem hl h)
  obtain ⟨l', hsame, hlines', hlen, hafter⟩ := exists_twin hlines hnul' (by simpa using hlast)
  have hf' : LinesFit (ls₁ ++ l' :: ls₂).flatten := by
    intro k hk
    rw [hlines', List.mem_append, List.mem_cons] at hk
    rcases hk with hk | rfl | hk
    · exact hf k (hlines ▸ List.mem_append_left _ hk)
    · exact hlen.trans (hf l hl)
    · exact hf k (hlines ▸ List.mem_append_right _ (List.mem_cons_of_mem _ hk))
  refine ⟨(ls₁ ++ l' :: ls₂).flatten, ?_, hf', fun c => ?_⟩
  · rw [SameButComments, hlines, hlines']
    exact sameLine_replace hsame
  · rw [configRead_eq, fileLines, pieces_eq_lines (by decide) hf', hlines', List.zipIdx_append,
      List.zipIdx_cons, List.map_append, List.map_cons]
    -- the twin's text is that of the line
    have hbody : lineBody l = lineBody l' := hsame.body
    have htext := lineText_congr hbody
    have hkeyword' : sameCase (lineKeyword l') "emptyrulesetpolicy".toList = true := by
      rw [lineKeyword, ← htext]
      exact hkeyword
    have harg' : lineArgument l' = lineArgument l := by
      rw [lineArgument, lineArgument, lineKeyword, lineKeyword, htext]
    have hne : lineText l' ≠ [] := by
      intro hnil
      rw [lineKeyword, hnil] at hkeyword'
      exact absurd hkeyword' (by decide)
    have hstart : ∀ c, (lineArgument l').head? = some c → isBlank c = false := fun c hc => by
      have hhead := List.head?_dropWhile_not isBlank ((lineText l').drop ((lineKeyword l').length + 1))
      rw [← lineArgument, hc] at hhead
      simpa using hhead
    refine (Refuses.append (refuses_of_stop (blockEffect_policy hkeyword') fun c => ?_) _).1 c
    rw [readLines_cons, lineEffect_policy hkeyword' (harg' ▸ harg),
      stripWhitespace_snd (hbody ▸ by simpa using hlast) hne]
    have hnone := parseEmptyRulesetPolicy_none hstart (harg' ▸ by simpa using hblank)
      (hbody ▸ hafter) c
    exact congrArg (fun r => Option.bind r _) hnone

/-! ## A comment that does not fit -/

/-- INTERNAL: a line with a single word in it is refused, in a block and outside of one.
SOURCE: conf.c:1046-1049, 508-511 -/
theorem refuses_word {l : Line} (h : lineText l.piece = ['!']) (ls : List Line) :
    Refuses (l :: ls) := by
  refine refuses_of_stop ?_ fun c => ?_
  · unfold blockEffect
    dsimp only
    rw [stripWhitespace_fst, h]
    decide
  · have heff : lineEffect l = .stop := by
      unfold lineEffect
      dsimp only
      rw [stripWhitespace_fst, h]
      rfl
    rw [readLines_cons, heff]

/-- INTERNAL: a comment that is longer than the buffer is read as a line of its own.
SOURCE: conf.c:1025, 489 -/
theorem exists_long_comment {f : Text} (hf : LinesFit f) {l : Text} (hl : l ∈ lines f)
    (hcomment : HasComment l) :
    ∃ g, SameButComments f g ∧ ∀ beyond c, configRead g beyond c = none := by
  obtain ⟨pre, t, rfl, hesc⟩ := hcomment
  obtain ⟨ls₁, ls₂, hlines⟩ := List.append_of_mem hl
  obtain ⟨u, nl, rfl, hnl, hpre, hcomment⟩ := exists_comment hlines hesc
  -- the first piece of the line fills the buffer, and the second one is a single word
  set fill := List.replicate (MAX_LINE - 1 - (pre.length + 1)) ' ' with hfill
  have hnotfill : '\n' ∉ fill := fun h => absurd (List.eq_of_mem_replicate h) (by decide)
  obtain ⟨hsame, hlines'⟩ := hcomment (fill ++ ['!']) (by simp [hnotfill])
  have hsamefile : SameButComments f
      (ls₁ ++ (pre ++ '#' :: (fill ++ ['!'] ++ nl)) :: ls₂).flatten := by
    rw [SameButComments, hlines, hlines']
    exact sameLine_replace hsame
  refine ⟨_, hsamefile, fun beyond c => ?_⟩
  have hlen := hf _ hl
  have hfirst : ('\n' ∉ pre ++ '#' :: fill) ∧ (pre ++ '#' :: fill).length = MAX_LINE - 1 := by
    constructor
    · simp [hpre, hnotfill]
    · rw [List.length_append, List.length_cons, List.length_append] at hlen
      rw [List.length_append, List.length_cons, hfill, List.length_replicate]
      omega
  have hsecond : ∃ ps, pieces MAX_LINE (['!'] ++ nl ++ ls₂.flatten) = (['!'] ++ nl) :: ps := by
    rcases hnl with rfl | ⟨rfl, rfl⟩
    · exact ⟨_, piecesFrom_append (by simp) (by simp) (Or.inl ⟨rfl, by decide⟩) _⟩
    · exact ⟨[], rfl⟩
  obtain ⟨ps, hps⟩ := hsecond
  have hbefore : ∀ k ∈ ls₁, Complete k ∧ k.length ≤ MAX_LINE - 1 := by
    intro k hk
    obtain ⟨as, bs, rfl⟩ := List.append_of_mem hk
    have hlines'' : lines f = as ++ k :: (bs ++ (pre ++ '#' :: (u ++ nl)) :: ls₂) := by
      rw [hlines, List.append_assoc, List.cons_append]
    exact ⟨complete_of_lines_append hlines'' (by simp), hf k (hlines'' ▸ by simp)⟩
  have hpieces : pieces MAX_LINE (ls₁ ++ (pre ++ '#' :: (fill ++ ['!'] ++ nl)) :: ls₂).flatten =
      ls₁ ++ (pre ++ '#' :: fill) :: (['!'] ++ nl) :: ps := by
    have htext : (ls₁ ++ (pre ++ '#' :: (fill ++ ['!'] ++ nl)) :: ls₂).flatten =
        ls₁.flatten ++ ((pre ++ '#' :: fill) ++ (['!'] ++ nl ++ ls₂.flatten)) := by
      simp [List.flatten_append]
    rw [htext, pieces_flatten_append hbefore, pieces, piecesFrom_append (by simp)
      (fun h => hfirst.1 (List.dropLast_subset _ h)) (Or.inr hfirst.2)]
    exact congrArg (fun ps => ls₁ ++ _ :: ps) hps
  rw [configRead_eq, fileLines, hpieces, List.zipIdx_append, List.zipIdx_cons, List.zipIdx_cons,
    List.map_append, List.map_cons, List.map_cons]
  refine (Refuses.append (Refuses.cons (refuses_word ?_ _) _) _).1 c
  change lineText (['!'] ++ nl) = ['!']
  rcases hnl with rfl | ⟨rfl, -⟩ <;> decide

/-! ## When comments do not matter -/

/-- **Comments do not matter** when the lines fit the buffer and every policy stands in its
line.  A policy that does not is read of the comment, so that another comment has the file
refused; and so has a comment that does not fit the buffer.
SOURCE: conf.c:411-458, 465-534, 705-728, 1025-1056 -/
theorem comments_ignored_iff (f : Text) (beyond : ℕ → Text) (c : FileConfig) :
    (LinesFit f → (∀ l ∈ lines f, PolicyInLine l) →
      ∀ g beyond', SameButComments f g → LinesFit g →
        configRead f beyond c = configRead g beyond' c) ∧
    ('\x00' ∉ f → LinesFit f → configRead f beyond c ≠ none →
      ((∀ g beyond', SameButComments f g → LinesFit g →
          configRead f beyond c = configRead g beyond' c) ↔
        ∀ l ∈ lines f, PolicyInLine l)) ∧
    (LinesFit f → (∃ l ∈ lines f, HasComment l) →
      ∃ g, SameButComments f g ∧ ∀ beyond' c, configRead g beyond' c = none) := by
  have hsame : LinesFit f → (∀ l ∈ lines f, PolicyInLine l) →
      ∀ g beyond', SameButComments f g → LinesFit g →
        configRead f beyond c = configRead g beyond' c := by
    intro hf hpolicy g beyond' h hg
    rw [configRead_eq, configRead_eq]
    exact readLines_congr (alike_fileLines h hf hg hpolicy beyond beyond') c
  refine ⟨hsame, fun hnul hf haccept => ⟨fun hall l hl => ?_, fun hpolicy => hsame hf hpolicy⟩,
    fun hf ⟨l, hl, hcomment⟩ => exists_long_comment hf hl hcomment⟩
  by_contra hbad
  obtain ⟨g, h, hg, hnone⟩ := exists_refused hf hnul hl hbad
  exact haccept ((hall g _ h hg).trans (hnone c))

/-- A file with a policy in its line, and the same file with another comment. -/
def samplePolicyFile (comment : String) : Text :=
  ("EmptyRuleSetPolicy trusted-users allow #" ++ comment ++ "\n").toList

/-- It is read alike. -/
theorem comments_ignored_iff_sample :
    configRead (samplePolicyFile "block") (fun _ => []) {} =
      configRead (samplePolicyFile " or not") (fun _ => []) {} :=
  (comments_ignored_iff _ _ _).1 (by decide +kernel) (by decide +kernel) _ _
    (.cons (Or.inr ⟨"EmptyRuleSetPolicy trusted-users allow ".toList, "block".toList,
      " or not".toList, ['\n'], by decide, by decide, by decide, by decide, by decide⟩) .nil)
    (by decide +kernel)

/-- A file whose only policy stands in a comment. -/
def commentPolicyFile (comment : String) : Text :=
  ("EmptyRuleSetPolicy trusted-users#" ++ comment ++ "\n").toList

/-- The policy is read of the comment.
SOURCE: conf.c:428-436, 715-719 -/
theorem policy_of_comment :
    SameButComments (commentPolicyFile "allow ") (commentPolicyFile "block ") ∧
      (configRead (commentPolicyFile "allow ") (fun _ => []) {}).map (·.emptyPolicy .trustedUsers) =
        some .ACCEPT ∧
      (configRead (commentPolicyFile "block ") (fun _ => []) {}).map (·.emptyPolicy .trustedUsers) =
        some .REJECT ∧
      (configRead (commentPolicyFile "") (fun _ => []) {}).isNone = true := by
  refine ⟨.cons (Or.inr ⟨"EmptyRuleSetPolicy trusted-users".toList, "allow ".toList,
    "block ".toList, ['\n'], by decide, by decide, by decide, by decide, by decide⟩) .nil, ?_⟩
  decide +kernel

end WifiCat.Analysis
