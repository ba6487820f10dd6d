import WifiCat.Model.ConfFile
import WifiCat.Analysis.MacAddresses

/-!
# The MAC lists as sets of addresses

A MAC list should hold well-formed addresses, each once.  What the functions check of an
argument, what they copy of it and how they compare it are three notions of a MAC address;
`mac_lists_are_sets_iff` says in which runs of calls they amount to one.
-/

set_option autoImplicit false

namespace WifiCat.Analysis

open Scan Run

/-! ## Calls -/

/-- A call of one of the functions of a list. -/
inductive MacCall
  | add (l : MacListName) (possiblemac : Text)
  | remove (l : MacListName) (possiblemac : Text)
  | parse (l : MacListName) (ptr : Text)

/-- The list of a call. -/
def MacCall.list : MacCall → MacListName
  | .add l _ => l
  | .remove l _ => l
  | .parse l _ => l

/-- One call, on the configuration.
SOURCE: conf.c:1452-1788 -/
def MacCall.run (config : Config) : MacCall → Config
  | .add l mac => (addToMacList l mac config).2
  | .remove l mac => (removeFromMacList l mac config).2
  | .parse l ptr =>
    (TextLines.words (fun d => d == ',' || isBlank d) ptr).foldl
      (fun config mac => (addToMacList l mac config).2) config

/-- One address that is added to a list or removed from it. -/
inductive MacStep
  | add (l : MacListName) (mac : Text)
  | remove (l : MacListName) (mac : Text)

/-- The list of a step. -/
def MacStep.list : MacStep → MacListName
  | .add l _ => l
  | .remove l _ => l

/-- One step, on the configuration. -/
def MacStep.run (config : Config) : MacStep → Config
  | .add l mac => (addToMacList l mac config).2
  | .remove l mac => (removeFromMacList l mac config).2

/-- The steps of a call: a list that is parsed adds each of its words.
SOURCE: conf.c:1537-1553, 1656-1669, 1771-1788 -/
def MacCall.steps : MacCall → List MacStep
  | .add l mac => [.add l mac]
  | .remove l mac => [.remove l mac]
  | .parse l ptr => (TextLines.words (fun d => d == ',' || isBlank d) ptr).map (.add l)

/-- INTERNAL: calls are the runs of their steps. -/
theorem foldl_steps (calls : List MacCall) (config : Config) :
    calls.foldl MacCall.run config = (calls.flatMap MacCall.steps).foldl MacStep.run config := by
  induction calls generalizing config with
  | nil => rfl
  | cons call calls ih =>
    rw [List.foldl_cons, List.flatMap_cons, List.foldl_append, ih]
    cases call with
    | add => rfl
    | remove => rfl
    | parse l ptr =>
      rw [MacCall.steps, List.foldl_map]
      rfl

/-- INTERNAL: a line of the configuration file parses its list so.
SOURCE: conf.c:1537-1553, 1656-1669, 1771-1788 -/
theorem parseMacList_run (l : MacListName) (ptr : Text) (c : FileConfig) :
    (parseMacList l ptr c).maclist = (MacCall.run c.toConfig (.parse l ptr)).maclist := rfl

/-! ## Sets of addresses -/

/-- The entries are well formed, and no two of them denote one address. -/
structure MacSet (macs : List Text) : Prop where
  wellFormed : ∀ mac ∈ macs, isMacAddress mac = true
  distinct : macs.Pairwise fun mac mac' => readMac mac ≠ readMac mac'

/-- An argument denotes an entry: it is a MAC address, and the entry is read alike. -/
def DenotesEntry (mac : Text) (macs : List Text) : Prop :=
  isMacAddress mac = true ∧ ∃ e ∈ macs, readMac e = readMac mac

/-- Adding an address does what it should: it returns 0 exactly for an address that no entry
denotes, and then the list has one more entry, for this address; otherwise nothing changes. -/
structure AddOk (l : MacListName) (mac : Text) (config : Config) : Prop where
  returns : (addToMacList l mac config).1 = 0 ↔
    isMacAddress mac = true ∧ ¬DenotesEntry mac (config.maclist l)
  adds : (addToMacList l mac config).1 = 0 → ∃ e, readMac e = readMac mac ∧
    (addToMacList l mac config).2 = config.setMaclist l (e :: config.maclist l)
  rejects : (addToMacList l mac config).1 ≠ 0 → (addToMacList l mac config).2 = config

/-- Removing an address does what it should: it returns 0 exactly when it denotes an entry, and
then the list loses this entry; otherwise nothing changes. -/
structure RemoveOk (l : MacListName) (mac : Text) (config : Config) : Prop where
  returns : (removeFromMacList l mac config).1 = 0 ↔ DenotesEntry mac (config.maclist l)
  removes : (removeFromMacList l mac config).1 = 0 → ∃ e l₁ l₂,
    config.maclist l = l₁ ++ e :: l₂ ∧ readMac e = readMac mac ∧
    (removeFromMacList l mac config).2 = config.setMaclist l (l₁ ++ l₂)
  rejects : (removeFromMacList l mac config).1 ≠ 0 → (removeFromMacList l mac config).2 = config

/-- A step does what it should and leaves sets of addresses. -/
def StepOk (config : Config) (s : MacStep) : Prop :=
  (match s with
    | .add l mac => AddOk l mac config
    | .remove l mac => RemoveOk l mac config) ∧
  ∀ l, MacSet ((s.run config).maclist l)

/-! ## When the three notions agree -/

/-- The copy of the argument is listed, up to case.
SOURCE: conf.c:1468-1474, 1515-1524 -/
def CopyListed (mac : Text) (macs : List Text) : Prop :=
  ∃ e ∈ macs, sameCase e (macCopy mac) = true

instance (mac : Text) (macs : List Text) : Decidable (CopyListed mac macs) :=
  inferInstanceAs (Decidable (∃ e ∈ macs, sameCase e (macCopy mac) = true))

/-- An argument that passes the check and whose copy is not listed is a MAC address and nothing
more, and no entry writes the same address with other digits. -/
def AddCond (mac : Text) (macs : List Text) : Prop :=
  checkMacFormat mac = true → ¬CopyListed mac macs →
    isMacAddress mac = true ∧ ∀ e ∈ macs, readMac e ≠ readMac mac

/-- An argument that passes the check and whose copy is listed is a MAC address and nothing
more; and when some entry writes the address of the argument, one writes it with the same
digits. -/
def RemoveCond (mac : Text) (macs : List Text) : Prop :=
  (checkMacFormat mac = true → CopyListed mac macs → isMacAddress mac = true) ∧
  (isMacAddress mac = true → (∃ e ∈ macs, readMac e = readMac mac) → CopyListed mac macs)

/-- The condition on a step. -/
def StepCond (config : Config) : MacStep → Prop
  | .add l mac => AddCond mac (config.maclist l)
  | .remove l mac => RemoveCond mac (config.maclist l)

instance (mac : Text) (macs : List Text) : Decidable (AddCond mac macs) :=
  inferInstanceAs (Decidable (_ → _ → _ ∧ _))

instance (mac : Text) (macs : List Text) : Decidable (RemoveCond mac macs) :=
  inferInstanceAs (Decidable ((_ → _ → _) ∧ (_ → _ → _)))

instance (config : Config) : (s : MacStep) → Decidable (StepCond config s)
  | .add l mac => inferInstanceAs (Decidable (AddCond mac (config.maclist l)))
  | .remove l mac => inferInstanceAs (Decidable (RemoveCond mac (config.maclist l)))

/-- INTERNAL: a MAC address passes the check.
SOURCE: conf.c:1443-1450 -/
theorem checkMacFormat_of_isMacAddress {mac : Text} (h : isMacAddress mac = true) :
    checkMacFormat mac = true := by
  have hnonempty : ∀ w ∈ fields ':' mac, w ≠ [] := by
    intro w hw hnil
    unfold isMacAddress at h
    simp only [Bool.and_eq_true, List.all_eq_true, decide_eq_true_eq] at h
    have hlen := (h.2 w hw).1.1
    rw [hnil] at hlen
    exact absurd hlen (by decide)
  obtain ⟨hsix, hoctet⟩ := isMacAddress_octets h
  have hset : ∀ w ∈ fields ':' mac, ∀ t, (t = [] ∨ ∃ s, t = ':' :: s) →
      set 2 isHexDigit (w ++ t) = some (w, t) := by
    intro w hw t ht
    refine set_append (hnonempty w hw) (hoctet w hw).1 (hoctet w hw).2 (Or.inr ?_)
    rintro c s rfl
    rcases ht with hnil | ⟨s', hs'⟩
    · cases hnil
    · rw [(List.cons.inj hs').1]
      rfl
  have hglue := unfields_fields ':' mac
  obtain ⟨w₁, w₂, w₃, w₄, w₅, w₆, hfields⟩ : ∃ w₁ w₂ w₃ w₄ w₅ w₆,
      fields ':' mac = [w₁, w₂, w₃, w₄, w₅, w₆] := by
    match fields ':' mac, hsix with
    | [w₁, w₂, w₃, w₄, w₅, w₆], _ => exact ⟨w₁, w₂, w₃, w₄, w₅, w₆, rfl⟩
  rw [hfields] at hset hglue
  have htext : mac = w₁ ++ ':' :: (w₂ ++ ':' :: (w₃ ++ ':' :: (w₄ ++ ':' :: (w₅ ++ ':' :: (w₆ ++ []))))) := by
    rw [← hglue]
    simp [unfields, List.intercalate_cons_cons]
  unfold checkMacFormat
  rw [htext, hset w₁ (by simp) _ (Or.inr ⟨_, rfl⟩)]
  simp only [Option.bind_eq_bind, Option.bind_some, lit_cons]
  rw [hset w₂ (by simp) _ (Or.inr ⟨_, rfl⟩)]
  simp only [Option.bind_some, lit_cons]
  rw [hset w₃ (by simp) _ (Or.inr ⟨_, rfl⟩)]
  simp only [Option.bind_some, lit_cons]
  rw [hset w₄ (by simp) _ (Or.inr ⟨_, rfl⟩)]
  simp only [Option.bind_some, lit_cons]
  rw [hset w₅ (by simp) _ (Or.inr ⟨_, rfl⟩)]
  simp only [Option.bind_some, lit_cons]
  rw [hset w₆ (by simp) _ (Or.inl rfl)]
  rfl

/-! ## One step -/

section Step

variable {l : MacListName} {mac : Text} {config : Config}

/-- INTERNAL: what adding does, under the list's mechanism.
SOURCE: conf.c:1452-1484, 1560-1598, 1676-1714 -/
theorem addToMacList_used (huses : config.usesList l = true) :
    (checkMacFormat mac = false ∧ addToMacList l mac config = (-1, config)) ∨
    (checkMacFormat mac = true ∧ CopyListed mac (config.maclist l) ∧
      addToMacList l mac config = (1, config)) ∨
    (checkMacFormat mac = true ∧ ¬CopyListed mac (config.maclist l) ∧
      addToMacList l mac config =
        (0, config.setMaclist l (macCopy mac :: config.maclist l))) := by
  rcases addToMacList_outcomes l mac config with
    ⟨hformat, h⟩ | ⟨hunused, -⟩ | ⟨hformat, -, hlisted, h⟩ | ⟨hformat, -, hnot, h⟩
  · exact Or.inl ⟨hformat, h⟩
  · rw [huses] at hunused
    cases hunused
  · exact Or.inr (Or.inl ⟨hformat, hlisted, h⟩)
  · exact Or.inr (Or.inr ⟨hformat, hnot, h⟩)

/-- INTERNAL: what removing does, under the list's mechanism.
SOURCE: conf.c:1490-1531, 1604-1650, 1720-1766 -/
theorem removeFromMacList_used (huses : config.usesList l = true) :
    (checkMacFormat mac = false ∧ removeFromMacList l mac config = (-1, config)) ∨
    (checkMacFormat mac = true ∧ ¬CopyListed mac (config.maclist l) ∧
      removeFromMacList l mac config = (-1, config)) ∨
    (checkMacFormat mac = true ∧ ∃ e l₁ l₂, config.maclist l = l₁ ++ e :: l₂ ∧
      sameCase e (macCopy mac) = true ∧
      removeFromMacList l mac config = (0, config.setMaclist l (l₁ ++ l₂))) := by
  rcases removeFromMacList_outcomes l mac config with
    ⟨hformat, h⟩ | ⟨hunused, -⟩ | ⟨hformat, -, hnot, h⟩ | ⟨hformat, -, h⟩
  · exact Or.inl ⟨hformat, h⟩
  · rw [huses] at hunused
    cases hunused
  · exact Or.inr (Or.inl ⟨hformat, hnot, h⟩)
  · exact Or.inr (Or.inr ⟨hformat, h⟩)

/-- INTERNAL: an entry that is the copy of a MAC address up to case denotes it. -/
theorem denotesEntry_of_copyListed {macs : List Text} (hmac : isMacAddress mac = true)
    (h : CopyListed mac macs) : DenotesEntry mac macs := by
  obtain ⟨e, hmem, hsame⟩ := h
  rw [macCopy_of_isMacAddress hmac] at hsame
  exact ⟨hmac, e, hmem, readMac_of_sameCase hsame⟩

theorem maclist_setMaclist (macs : List Text) (l' : MacListName) :
    (config.setMaclist l macs).maclist l' = if l' = l then macs else config.maclist l' := by
  simp [Config.setMaclist, Function.update_apply]

/-- INTERNAL: changing one list into a set leaves sets. -/
theorem macSet_setMaclist (hsets : ∀ l, MacSet (config.maclist l)) {macs : List Text}
    (hset : MacSet macs) (l' : MacListName) : MacSet ((config.setMaclist l macs).maclist l') := by
  rw [maclist_setMaclist]
  split
  · exact hset
  · exact hsets l'

/-- INTERNAL: **adding an address goes well** exactly under its condition.
SOURCE: conf.c:1452-1484, 1560-1598, 1676-1714 -/
theorem add_ok_iff (huses : config.usesList l = true) (hsets : ∀ l, MacSet (config.maclist l)) :
    StepOk config (.add l mac) ↔ AddCond mac (config.maclist l) := by
  have hcheck : checkMacFormat mac = false → isMacAddress mac ≠ true := fun hformat hmac => by
    rw [checkMacFormat_of_isMacAddress hmac] at hformat
    cases hformat
  rcases addToMacList_used huses with ⟨hformat, h⟩ | ⟨hformat, hlisted, h⟩ | ⟨hformat, hnot, h⟩
  · refine ⟨fun _ hpass => absurd (hformat.symm.trans hpass) (by decide), fun _ => ⟨⟨?_, ?_, ?_⟩, ?_⟩⟩
    · simp [h, hcheck hformat]
    · simp [h]
    · simp [h]
    · simpa only [MacStep.run, h] using hsets
  · refine ⟨fun _ _ hnot => absurd hlisted hnot, fun _ => ⟨⟨?_, ?_, ?_⟩, ?_⟩⟩
    · simp only [h, one_ne_zero, false_iff, not_and, not_not]
      exact fun hmac => denotesEntry_of_copyListed hmac hlisted
    · simp [h]
    · simp [h]
    · simpa only [MacStep.run, h] using hsets
  · constructor
    · rintro ⟨hadd, -⟩ - -
      obtain ⟨hmac, hnew⟩ := hadd.returns.mp (by rw [h])
      exact ⟨hmac, fun e he hread => hnew ⟨hmac, e, he, hread⟩⟩
    · intro hcond
      obtain ⟨hmac, hnew⟩ := hcond hformat hnot
      have hcopy : macCopy mac = mac := macCopy_of_isMacAddress hmac
      rw [hcopy] at h
      refine ⟨⟨?_, ?_, ?_⟩, ?_⟩
      · simp only [h, true_iff]
        refine ⟨hmac, ?_⟩
        rintro ⟨-, e, he, hread⟩
        exact hnew e he hread
      · exact fun _ => ⟨mac, rfl, by rw [h]⟩
      · simp [h]
      · simp only [MacStep.run, h]
        refine macSet_setMaclist hsets ⟨?_, ?_⟩
        · intro e he
          rcases List.mem_cons.mp he with rfl | he
          · exact hmac
          · exact (hsets l).wellFormed e he
        · exact List.pairwise_cons.mpr ⟨fun e he => Ne.symm (hnew e he), (hsets l).distinct⟩

/-- INTERNAL: **removing an address goes well** exactly under its condition.
SOURCE: conf.c:1490-1531, 1604-1650, 1720-1766 -/
theorem remove_ok_iff (huses : config.usesList l = true) (hsets : ∀ l, MacSet (config.maclist l)) :
    StepOk config (.remove l mac) ↔ RemoveCond mac (config.maclist l) := by
  have hcheck : checkMacFormat mac = false → isMacAddress mac ≠ true := fun hformat hmac => by
    rw [checkMacFormat_of_isMacAddress hmac] at hformat
    cases hformat
  rcases removeFromMacList_used huses with
    ⟨hformat, h⟩ | ⟨hformat, hnot, h⟩ | ⟨hformat, e, l₁, l₂, hl, hsame, h⟩
  · refine ⟨fun _ => ⟨?_, ?_⟩, fun _ => ⟨⟨?_, ?_, ?_⟩, ?_⟩⟩
    · exact fun hpass => absurd (hformat.symm.trans hpass) (by decide)
    · exact fun hmac => absurd hmac (hcheck hformat)
    · simp [h, DenotesEntry, hcheck hformat]
    · simp [h]
    · simp [h]
    · simpa only [MacStep.run, h] using hsets
  · constructor
    · rintro ⟨hremove, -⟩
      refine ⟨fun _ hlisted => absurd hlisted hnot, fun hmac hentry => ?_⟩
      have hzero := hremove.returns.mpr ⟨hmac, hentry⟩
      simp [h] at hzero
    · rintro ⟨-, hcond⟩
      refine ⟨⟨?_, ?_, ?_⟩, ?_⟩
      · simp only [h, neg_eq_zero, one_ne_zero, false_iff]
        rintro ⟨hmac, hentry⟩
        exact hnot (hcond hmac hentry)
      · simp [h]
      · simp [h]
      · simpa only [MacStep.run, h] using hsets
  · have hlisted : CopyListed mac (config.maclist l) := ⟨e, by simp [hl], hsame⟩
    constructor
    · rintro ⟨hremove, -⟩
      exact ⟨fun _ _ => (hremove.returns.mp (by rw [h])).1, fun _ _ => hlisted⟩
    · rintro ⟨hcond, -⟩
      have hmac := hcond hformat hlisted
      have hread : readMac e = readMac mac := by
        rw [macCopy_of_isMacAddress hmac] at hsame
        exact readMac_of_sameCase hsame
      refine ⟨⟨?_, ?_, ?_⟩, ?_⟩
      · simp only [h, true_iff]
        exact denotesEntry_of_copyListed hmac hlisted
      · exact fun _ => ⟨e, l₁, l₂, hl, hread, by rw [h]⟩
      · simp [h]
      · simp only [MacStep.run, h]
        have hsub : (l₁ ++ l₂).Sublist (config.maclist l) := by
          rw [hl]
          exact List.Sublist.append_left (List.sublist_cons_self e l₂) l₁
        exact macSet_setMaclist hsets
          ⟨fun d hd => (hsets l).wellFormed d (hsub.subset hd), (hsets l).distinct.sublist hsub⟩

end Step

/-! ## Runs -/

/-- INTERNAL: no step changes the mechanism. -/
theorem macmechanism_run (config : Config) (s : MacStep) :
    (s.run config).macmechanism = config.macmechanism := by
  cases s with
  | add l mac =>
    simp only [MacStep.run, addToMacList]
    split_ifs <;> rfl
  | remove l mac =>
    simp only [MacStep.run, removeFromMacList]
    split_ifs <;> rfl

/-- INTERNAL: the steps of a call are steps of its list. -/
theorem list_of_mem_steps {call : MacCall} {s : MacStep} (h : s ∈ call.steps) :
    s.list = call.list := by
  cases call with
  | add l mac => rw [List.mem_singleton.mp h]; rfl
  | remove l mac => rw [List.mem_singleton.mp h]; rfl
  | parse l ptr =>
    obtain ⟨mac, -, rfl⟩ := List.mem_map.mp h
    rfl

/-- **The MAC lists are sets of addresses** in a run of calls on empty lists, under the
mechanism of the lists that are called, exactly when each of its steps meets its condition: every
step then does what it should and leaves sets.
SOURCE: conf.c:1443-1788 -/
theorem mac_lists_are_sets_iff (config : Config) (calls : List MacCall)
    (huses : ∀ call ∈ calls, config.usesList call.list = true) :
    (Along MacStep.run StepOk { config with maclist := fun _ => [] }
        (calls.flatMap MacCall.steps) ↔
      Along MacStep.run StepCond { config with maclist := fun _ => [] }
        (calls.flatMap MacCall.steps)) ∧
    calls.foldl MacCall.run { config with maclist := fun _ => [] } =
      (calls.flatMap MacCall.steps).foldl MacStep.run { config with maclist := fun _ => [] } := by
  refine ⟨?_, foldl_steps calls _⟩
  have hlists : ∀ s ∈ calls.flatMap MacCall.steps, ∀ c : Config,
      c.macmechanism = config.macmechanism → c.usesList s.list = true := by
    intro s hs c hmech
    obtain ⟨call, hcall, hmem⟩ := List.mem_flatMap.mp hs
    rw [list_of_mem_steps hmem, ← huses call hcall, Config.usesList, Config.usesList, hmech]
  refine along_congr (I := fun c => (∀ l, MacSet (c.maclist l)) ∧
    c.macmechanism = config.macmechanism) _ ?_ ?_ ?_
  · rintro c s hs ⟨hsets, hmech⟩
    cases s with
    | add l mac => exact add_ok_iff (hlists _ hs c hmech) hsets
    | remove l mac => exact remove_ok_iff (hlists _ hs c hmech) hsets
  · rintro c s - ⟨-, hmech⟩ hok
    exact ⟨hok.2, (macmechanism_run c s).trans hmech⟩
  · exact ⟨fun _ => ⟨by simp, List.Pairwise.nil⟩, rfl⟩

/-- Three calls on the trusted list. -/
def sampleMacCalls : List MacCall :=
  [.parse .trusted "00:11:22:33:44:55, 66:77:88:99:aa:bb".toList,
    .add .trusted "00:11:22:33:44:55".toList, .remove .trusted "66:77:88:99:AA:BB".toList]

theorem mac_lists_are_sets_sample :
    Along MacStep.run StepOk { maclist := fun _ => [] } (sampleMacCalls.flatMap MacCall.steps) ∧
      sampleMacCalls.foldl MacCall.run { maclist := fun _ => [] } =
        (sampleMacCalls.flatMap MacCall.steps).foldl MacStep.run { maclist := fun _ => [] } := by
  obtain ⟨hiff, hrun⟩ := mac_lists_are_sets_iff {} sampleMacCalls (by decide)
  exact ⟨hiff.mpr (by decide +kernel), hrun⟩

/-- Text behind the sixth octet is not looked at: the argument is added though it is no MAC
address.
SOURCE: conf.c:1443-1450 -/
theorem mac_list_not_a_set :
    ¬Along MacStep.run StepOk { maclist := fun _ => [] }
      ([.add .trusted "0:1:2:3:4:5:6".toList].flatMap MacCall.steps) := by
  rintro ⟨⟨hadd, -⟩, -⟩
  exact absurd (hadd.returns.mp (by decide)).1 (by decide)

end WifiCat.Analysis
