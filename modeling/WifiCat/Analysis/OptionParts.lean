import WifiCat.Analysis.ConfigLines
import WifiCat.Library.Rearrangement

/-!
# What an option reads and writes

The parts of the configuration that the file sets.  Every option writes one part at most; it
reads that part, and a mark reads the other marks and a MAC list the mechanism as well.
-/

set_option autoImplicit false

namespace WifiCat.Analysis

open Scan Rearrangement

/-! ## Parts -/

/-- The parts of the configuration. -/
inductive Part
  | daemon
  | text (o : TextOption)
  | number (o : NumberOption)
  | boolean (o : BooleanOption)
  | mark (m : MarkName)
  | macmechanism
  | maclist (l : MacListName)
  | policy (name : RulesetName)
  | rules (name : RulesetName)
deriving DecidableEq, Repr

/-- What a part holds. -/
def Part.Value : Part → Type
  | .daemon => ℤ
  | .text _ => Option Text
  | .number _ => ℤ
  | .boolean _ => Bool
  | .mark _ => BitVec 32
  | .macmechanism => MacMechanism
  | .maclist _ => List Text
  | .policy _ => EmptyRulesetPolicy
  | .rules _ => List FirewallRule

/-- A part of a configuration. -/
def getPart (c : FileConfig) : (p : Part) → p.Value
  | .daemon => c.daemon
  | .text o => c.text o
  | .number o => c.number o
  | .boolean o => c.boolean o
  | .mark m => c.mark m
  | .macmechanism => c.macmechanism
  | .maclist l => c.maclist l
  | .policy name => c.emptyPolicy name
  | .rules name => c.rules name

/-- A configuration with another value in one part. -/
def putPart (c : FileConfig) : (p : Part) → p.Value → FileConfig
  | .daemon, v => { c with daemon := v }
  | .text o, v => { c with text := Function.update c.text o v }
  | .number o, v => { c with number := Function.update c.number o v }
  | .boolean o, v => { c with boolean := Function.update c.boolean o v }
  | .mark m, v => { c with mark := Function.update c.mark m v }
  | .macmechanism, v => { c with macmechanism := v }
  | .maclist l, v => { c with maclist := Function.update c.maclist l v }
  | .policy name, v => { c with emptyPolicy := Function.update c.emptyPolicy name v }
  | .rules name, v => { c with rules := Function.update c.rules name v }

theorem getPart_putPart (c : FileConfig) (p : Part) (v : p.Value) :
    getPart (putPart c p v) p = v := by
  cases p with
  | daemon => rfl
  | macmechanism => rfl
  | text o => exact Function.update_self o v c.text
  | number o => exact Function.update_self o v c.number
  | boolean o => exact Function.update_self o v c.boolean
  | mark m => exact Function.update_self m v c.mark
  | maclist l => exact Function.update_self l v c.maclist
  | policy name => exact Function.update_self name v c.emptyPolicy
  | rules name => exact Function.update_self name v c.rules

theorem getPart_putPart_of_ne (c : FileConfig) (p : Part) (v : p.Value) (q : Part) (h : q ≠ p) :
    getPart (putPart c p v) q = getPart c q := by
  cases p <;> cases q <;>
    first
    | rfl
    | exact absurd rfl h
    | exact Function.update_of_ne (fun heq => h (by rw [heq])) _ _

/-- INTERNAL: a configuration is its parts. -/
theorem getPart_ext {c c' : FileConfig} (h : ∀ p, getPart c p = getPart c' p) : c = c' := by
  cases c
  cases c'
  congr
  · exact h .daemon
  · exact funext fun o => h (.text o)
  · exact funext fun o => h (.number o)
  · exact funext fun o => h (.boolean o)
  · exact funext fun m => h (.mark m)
  · exact h .macmechanism
  · exact funext fun l => h (.maclist l)
  · exact funext fun name => h (.policy name)
  · exact funext fun name => h (.rules name)

theorem putPart_getPart (c : FileConfig) (p : Part) : putPart c p (getPart c p) = c := by
  refine getPart_ext fun q => ?_
  by_cases h : q = p
  · subst h
    exact getPart_putPart c q _
  · exact getPart_putPart_of_ne c p _ q h

/-! ## MAC lists -/

/-- One address more in a list, under a mechanism. -/
def addMac (l : MacListName) (mechanism : MacMechanism) (macs : List Text) (mac : Text) :
    List Text :=
  if checkMacFormat mac ∧ (∀ m ∈ l.mechanism, m = mechanism) ∧
      macs.any (sameCase · (macCopy mac)) = false then macCopy mac :: macs
  else macs

/-- INTERNAL: the trusted list has no mechanism to check. -/
theorem addMac_congr {l : MacListName} {m m' : MacMechanism} (h : l.mechanism ≠ none → m = m') :
    addMac l m = addMac l m' := by
  cases l with
  | trusted =>
    funext macs mac
    simp [addMac, MacListName.mechanism]
  | blocked => rw [h (by decide)]
  | allowed => rw [h (by decide)]

/-- INTERNAL: adding an address changes one list, by that list and the mechanism.
SOURCE: conf.c:1452-1484, 1560-1598, 1676-1714 -/
theorem addToMacList_eq (l : MacListName) (mac : Text) (config : Config) :
    (addToMacList l mac config).2 =
      config.setMaclist l (addMac l config.macmechanism (config.maclist l) mac) := by
  have hsame : config.setMaclist l (config.maclist l) = config := by
    rw [Config.setMaclist, Function.update_eq_self]
  have huses : config.usesList l = true ↔ ∀ m ∈ l.mechanism, m = config.macmechanism := by
    cases l <;> simp [Config.usesList, MacListName.mechanism]
  unfold addToMacList addMac
  by_cases hformat : checkMacFormat mac = true
  · by_cases hlist : config.usesList l = true
    · cases hany : (config.maclist l).any (sameCase · (macCopy mac)) with
      | true => simp [hformat, hlist, hany, hsame]
      | false =>
        rw [if_neg (by simp [hformat]), if_neg (by simp [hlist]), if_neg (by simp [hany]),
          if_pos ⟨hformat, huses.mp hlist, rfl⟩]
    · rw [if_neg (by simp [hformat]), if_pos (by simpa using hlist),
        if_neg fun h => hlist (huses.mpr h.2.1), hsame]
  · simp [hformat, hsame]

/-- INTERNAL: so does a list of addresses. -/
theorem foldl_addToMacList (l : MacListName) (macs : List Text) (config : Config) :
    macs.foldl (fun config mac => (addToMacList l mac config).2) config =
      config.setMaclist l (macs.foldl (addMac l config.macmechanism) (config.maclist l)) := by
  induction macs generalizing config with
  | nil => rw [List.foldl_nil, List.foldl_nil, Config.setMaclist, Function.update_eq_self]
  | cons mac macs ih =>
    rw [List.foldl_cons, ih, addToMacList_eq, List.foldl_cons]
    simp only [Config.setMaclist, Function.update_self, Function.update_idem]

theorem parseMacList_eq_put (l : MacListName) (arg : Text) (c : FileConfig) :
    parseMacList l arg c = putPart c (.maclist l)
      ((TextLines.words (fun d => d == ',' || isBlank d) arg).foldl (addMac l c.macmechanism)
        (c.maclist l)) := by
  rw [parseMacList, foldl_addToMacList]
  rfl

/-! ## What an option writes -/

/-- The part that an option writes.
SOURCE: conf.c:1059-1352 -/
def optionWrites (op : OpCode) (arg : Text) : Option Part :=
  match op with
  | .daemon => some .daemon
  | .text o => some (.text o)
  | .number o => some (.number o)
  | .boolean o => some (.boolean o)
  | .fwMark m => some (.mark m)
  | .macList l => some (.maclist l)
  | .macMechanism => some .macmechanism
  | .emptyRuleSetPolicy =>
    (getRuleset ((arg.dropWhile isBlank).takeWhile fun c => !isBlank c)).map .policy
  | _ => none

/-- The parts that it reads.
SOURCE: conf.c:1059-1352, 1560-1598, 1676-1714 -/
def optionReads (op : OpCode) (arg : Text) (p : Part) : Prop :=
  match op, p with
  | .fwMark _, .mark _ => True
  | .macList l, .macmechanism => l.mechanism ≠ none
  | op, p => optionWrites op arg = some p

theorem optionReads_self {op : OpCode} {arg : Text} {p : Part} (h : optionWrites op arg = some p) :
    optionReads op arg p := by
  cases op <;> cases p <;> first | exact h | trivial | cases h

/-- INTERNAL: an option that sets one part, by what it reads. -/
theorem footprint_part {act : FileConfig → Option FileConfig} {reads : Part → Prop} (p : Part)
    (val : FileConfig → Option p.Value) (hact : ∀ c, act c = (val c).map (putPart c p))
    (hval : ∀ c c', (∀ q, reads q → getPart c q = getPart c' q) → val c = val c') :
    Footprint getPart act reads fun q => some p = some q := by
  have hput := footprint_put getPart_putPart getPart_putPart_of_ne hval
  have hwrites : (fun q => some p = some q) = (· = p) := by
    funext q
    exact propext ⟨fun h => (Option.some.inj h).symm, fun h => congrArg some h.symm⟩
  rw [hwrites, show act = fun c => (val c).map (putPart c p) from funext hact]
  exact hput

/-- What `Daemon` sets; the command line goes before it. -/
def daemonValue (arg : Text) (c : FileConfig) : ℤ :=
  match parseBooleanValue arg with
  | some value => if c.daemon = -1 then value.toNat else c.daemon
  | none => c.daemon

/-- INTERNAL: `Daemon` depends on what was set before.
SOURCE: conf.c:1057-1061 -/
theorem footprint_daemon (arg after : Text) {reads : Part → Prop} (hreads : reads .daemon) :
    Footprint getPart (OpCode.daemon.apply arg after) reads fun q => some .daemon = some q := by
  refine footprint_part .daemon (fun c => some (daemonValue arg c)) (fun c => ?_) ?_
  · unfold OpCode.apply
    simp only [daemonValue]
    cases parseBooleanValue arg with
    | none => rfl
    | some value =>
      dsimp only
      split <;> rfl
  · intro c c' hsame
    have hdaemon : c.daemon = c'.daemon := hsame .daemon hreads
    unfold daemonValue
    rw [hdaemon]

/-- What `uid` sets; only an argument without anything to scan is refused. -/
def uidValue (arg : Text) (c : FileConfig) : Option ℤ :=
  match scanDecimal arg with
  | some n => some n
  | none => if arg.all isSpace then none else some (c.number .uid)

/-- INTERNAL: the number stays what it was when the argument is no number.
SOURCE: conf.c:1340-1346 -/
theorem footprint_uid (arg after : Text) {reads : Part → Prop} (hreads : reads (.number .uid)) :
    Footprint getPart ((OpCode.number .uid).apply arg after) reads
      fun q => some (.number .uid) = some q := by
  refine footprint_part (.number .uid) (uidValue arg) (fun c => ?_) ?_
  · unfold OpCode.apply
    simp only [uidValue]
    cases scanDecimal arg with
    | some n => rfl
    | none =>
      dsimp only
      split
      · rfl
      · exact congrArg some (putPart_getPart c (.number .uid)).symm
  · intro c c' hsame
    have hnumber : c.number .uid = c'.number .uid := hsame (.number .uid) hreads
    unfold uidValue
    rw [hnumber]

/-- INTERNAL: a mark is compared with the other marks.
SOURCE: conf.c:1282-1311 -/
theorem footprint_fwMark (m : MarkName) (arg after : Text) {reads : Part → Prop}
    (hreads : ∀ o, reads (.mark o)) :
    Footprint getPart ((OpCode.fwMark m).apply arg after) reads
      fun q => some (.mark m) = some q := by
  refine footprint_part (.mark m) (fun c => (scanHex arg).bind fun v =>
    if v = 0 || ([.authenticated, .trusted, .blocked].filter (· ≠ m) : List MarkName).any
        fun o => decide (Function.update c.mark m v o = v) then none else some v)
    (fun c => ?_) fun c c' hsame => ?_
  · unfold OpCode.apply parseFwMark
    cases scanHex arg with
    | none => rfl
    | some v =>
      simp only [bind, Option.bind_some]
      split <;> rfl
  · have hmark : c.mark = c'.mark := funext fun o => hsame (.mark o) (hreads o)
    rw [hmark]

/-- INTERNAL: a policy is set for the ruleset that is named.
SOURCE: conf.c:411-455, 1110-1112 -/
theorem footprint_policy (arg after : Text) (reads : Part → Prop) :
    Footprint getPart (OpCode.emptyRuleSetPolicy.apply arg after) reads
      fun q => optionWrites .emptyRuleSetPolicy arg = some q := by
  have happly : ∀ c, OpCode.emptyRuleSetPolicy.apply arg after c =
      parseEmptyRulesetPolicy arg after c := fun c => rfl
  unfold parseEmptyRulesetPolicy at happly
  unfold optionWrites
  dsimp only at happly ⊢
  cases hname : getRuleset ((arg.dropWhile isBlank).takeWhile fun c => !isBlank c) with
  | none =>
    simp only [hname] at happly
    rw [funext happly]
    exact footprint_none _ _
  | some name =>
    simp only [hname, bind, Option.bind_some] at happly
    obtain ⟨policy, hpolicy⟩ : ∃ policy : Option EmptyRulesetPolicy, ∀ c,
        OpCode.emptyRuleSetPolicy.apply arg after c =
          policy.bind fun v => some (putPart c (.policy name) v) := ⟨_, happly⟩
    exact footprint_part (.policy name) (fun _ => policy)
      (fun c => (hpolicy c).trans Option.map_eq_bind.symm) fun c c' _ => rfl

/-- INTERNAL: **an option reads and writes its parts** and no other ones.
SOURCE: conf.c:1059-1352 -/
theorem footprint_apply (op : OpCode) (arg after : Text) :
    Footprint getPart (op.apply arg after) (optionReads op arg)
      fun q => optionWrites op arg = some q := by
  have hself : ∀ p : Part, optionWrites op arg = some p → optionReads op arg p :=
    fun p hp => optionReads_self hp
  cases op with
  | daemon => exact footprint_daemon arg after (hself .daemon rfl)
  | text o =>
    cases o with
    | webRoot =>
      exact footprint_part (.text .webRoot) (fun _ => some (some (trimSlashes arg)))
        (fun c => rfl) fun c c' _ => rfl
    | _ => exact footprint_part (.text _) (fun _ => some (some arg)) (fun c => rfl) fun c c' _ => rfl
  | number o =>
    cases o with
    | uid => exact footprint_uid arg after (hself (.number .uid) rfl)
    | _ => exact footprint_part (.number _) (fun _ => _) (fun c => rfl) fun c c' _ => rfl
  | boolean o =>
    have hboolean : ∀ c c' : FileConfig, (∀ q, optionReads (.boolean o) arg q →
        getPart c q = getPart c' q) → c.boolean o = c'.boolean o :=
      fun c c' hreads => hreads (.boolean o) (hself (.boolean o) rfl)
    cases o with
    | enablePreAuth =>
      exact footprint_part (.boolean .enablePreAuth)
        (fun c => some ((parseBooleanValue arg).getD (c.boolean .enablePreAuth))) (fun c => rfl)
        fun c c' hreads => by rw [hboolean c c' hreads]
    | forceVoucher =>
      exact footprint_part (.boolean .forceVoucher)
        (fun c => some ((parseBooleanValue arg).getD (c.boolean .forceVoucher))) (fun c => rfl)
        fun c c' hreads => by rw [hboolean c c' hreads]
    | _ =>
      exact footprint_part (.boolean _) (fun _ => parseBooleanValue arg) (fun c => rfl)
        fun c c' _ => rfl
  | fwMark m => exact footprint_fwMark m arg after fun o => trivial
  | macList l =>
    refine footprint_part (.maclist l) (fun c => some
      ((TextLines.words (fun d => d == ',' || isBlank d) arg).foldl (addMac l c.macmechanism)
        (c.maclist l))) (fun c => congrArg some (parseMacList_eq_put l arg c)) fun c c' hreads => ?_
    have hlist : c.maclist l = c'.maclist l := hreads (.maclist l) (hself (.maclist l) rfl)
    have hmech : addMac l c.macmechanism = addMac l c'.macmechanism :=
      addMac_congr fun hne => hreads .macmechanism hne
    rw [hlist, hmech]
  | macMechanism =>
    refine footprint_part .macmechanism (fun _ =>
      if sameCase "allow".toList arg then some .allow
      else if sameCase "block".toList arg then some .block else none) (fun c => ?_)
      fun c c' _ => rfl
    unfold OpCode.apply
    dsimp only
    split
    · rfl
    · split <;> rfl
  | emptyRuleSetPolicy => exact footprint_policy arg after _
  | firewallRuleSet => exact footprint_some fun q h => by cases h
  | firewallRule => exact footprint_some fun q h => by cases h
  | unread => exact footprint_some fun q h => by cases h
  | badOption => exact footprint_none _ _

end WifiCat.Analysis
