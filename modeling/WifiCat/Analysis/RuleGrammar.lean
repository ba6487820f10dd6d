import WifiCat.Analysis.RuleLines
import WifiCat.Analysis.ShellAddresses

/-!
# The grammar of the firewall rules

The manual page gives the form of a rule, `Documented`.  The parser compares some of its words
by their first letters and tests others by their character class, so it takes more
(`RuleReading.Taken`); `documented_rules_iff` says for which arguments the two agree.
-/

set_option autoImplicit false

namespace WifiCat.Analysis

open Scan TextLines

/-! ## The documented form -/

/-- The permissions and their targets. -/
def permissions : List (Text × FirewallTarget) :=
  [("allow".toList, .accept), ("block".toList, .reject), ("drop".toList, .drop),
    ("log".toList, .log), ("ulog".toList, .ulog)]

/-- The protocols. -/
def protocols : List Text := ["tcp".toList, "udp".toList, "icmp".toList, "all".toList]

/-- A decimal port. -/
def isPortNumber (w : Text) : Bool :=
  !w.isEmpty && w.all Char.isDigit && Nat.ofDigitChars 10 w 0 < 65536

/-- A port, or two ports with a colon between them. -/
def isPortRange (w : Text) : Bool :=
  ((fields ':' w).length == 1 || (fields ':' w).length == 2) && (fields ':' w).all isPortNumber

/-- The number of bits of a mask. -/
def isMaskLength (w : Text) : Bool :=
  !w.isEmpty && w.all Char.isDigit && Nat.ofDigitChars 10 w 0 ≤ 32

/-- A dotted quad, or one with a mask behind a slash. -/
def isIpMask (w : Text) : Bool :=
  match fields '/' w with
  | [ip] => isDottedQuad ip
  | [ip, mask] => isDottedQuad ip && (isDottedQuad mask || isMaskLength mask)
  | _ => false

/-- The argument has the documented form `permission [protocol [port portrange]] [to ip]`, in
upper or lower case, and the rule has its fields.
SOURCE: debian/doc/nodogsplash.1:110-129 -/
def Documented (arg : Text) (rule : FirewallRule) : Prop :=
  ∃ kind destination, (kind, rule.target) ∈ permissions ∧
    (∀ p, rule.protocol = some p → p ∈ protocols) ∧
    (∀ n, rule.port = some n → isPortRange n = true ∧
      (rule.protocol = some "tcp".toList ∨ rule.protocol = some "udp".toList)) ∧
    (destination = [] ∧ rule.mask = some "0.0.0.0/0".toList ∨
      ∃ ip, isIpMask ip = true ∧ destination = ["to".toList, ip] ∧ rule.mask = some ip) ∧
    words isBlank (arg.map Char.toLower) = kind :: (rule.protocol.toList ++
      (rule.port.elim [] fun n => ["port".toList, n]) ++ destination)

/-- The parser accepts the argument exactly when it has the documented form; then it appends
the rule with those fields, and otherwise it changes nothing. -/
structure AcceptsDocumented (arg : Text) : Prop where
  accepts_iff : (∃ rule, parseFirewallRule arg = .ok rule) ↔ ∃ rule, Documented arg rule
  appends : ∀ rule, parseFirewallRule arg = .ok rule → Documented arg rule ∧ ∀ name c,
    addFirewallRule name arg c =
      { c with rules := Function.update c.rules name (c.rules name ++ [rule]) }
  rejects : (∀ rule, parseFirewallRule arg ≠ .ok rule) → ∀ name c, addFirewallRule name arg c = c

/-! ## The form that is taken -/

/-- The words of a rule: the permission, a protocol, a keyword and the port behind it, an
address and the words behind it. -/
structure RuleReading where
  kind : Text
  protocol : Option Text
  port : Option (Text × Option Text)
  destination : Option (Text × List Text)

/-- The words, one after the other. -/
def RuleReading.words (r : RuleReading) : List Text :=
  r.kind :: (r.protocol.toList ++ (r.port.elim [] fun p => p.1 :: p.2.toList) ++
    r.destination.elim [] fun d => "to".toList :: d.1 :: d.2)

/-- What the parser tests of the words: the first letters of a protocol and of `port`, the
characters of a port and of an address.
SOURCE: conf.c:560-640 -/
structure RuleReading.Taken (r : RuleReading) : Prop where
  kind : (targetOfWord r.kind).isSome
  protocol : ∀ p, r.protocol = some p → startsProtocol p = true
  port : ∀ keyword number, r.port = some (keyword, number) →
    "port".toList.isPrefixOf keyword = true ∧ r.protocol.any hasPorts = true ∧
    (∀ n, number = some n → isPort n = true) ∧ (number = none → r.destination = none)
  destination : ∀ mask beyond, r.destination = some (mask, beyond) → isMask mask = true

/-- Every word is what it is taken for, and nothing stands behind the address. -/
structure RuleReading.Exact (r : RuleReading) : Prop where
  protocol : ∀ p, r.protocol = some p → p ∈ protocols
  port : ∀ keyword number, r.port = some (keyword, number) →
    keyword = "port".toList ∧ ∃ n, number = some n ∧ isPortRange n = true
  destination : ∀ mask beyond, r.destination = some (mask, beyond) →
    isIpMask mask = true ∧ beyond = []

/-- The rule of the words. -/
def RuleReading.rule (r : RuleReading) (target : FirewallTarget) : FirewallRule :=
  { target := target
    protocol := r.protocol
    port := r.port.map fun p => p.2.getD []
    mask := some ((r.destination.map Prod.fst).getD "0.0.0.0/0".toList) }

/-! ## The words of the documented form -/

/-- INTERNAL: the permissions are the words the parser knows.
SOURCE: conf.c:560-574 -/
theorem targetOfWord_iff {w : Text} {target : FirewallTarget} :
    targetOfWord w = some target ↔ (w, target) ∈ permissions := by
  constructor
  · intro h
    unfold targetOfWord at h
    split_ifs at h with hw hw hw hw hw <;> obtain rfl := hw <;> obtain rfl := Option.some.inj h <;>
      decide
  · intro h
    simp only [permissions, List.mem_cons, List.not_mem_nil, or_false, Prod.mk.injEq] at h
    rcases h with ⟨rfl, rfl⟩ | ⟨rfl, rfl⟩ | ⟨rfl, rfl⟩ | ⟨rfl, rfl⟩ | ⟨rfl, rfl⟩ <;> rfl

/-- INTERNAL: the characters of a text are the separator and those of its fields. -/
theorem all_of_fields (sep : Char) {p : Char → Bool} {w : Text} (hsep : p sep = true)
    (h : ∀ f ∈ fields sep w, ∀ c ∈ f, p c = true) : w.all p = true := by
  rw [List.all_eq_true]
  intro c hc
  by_cases hne : c = sep
  · rw [hne, hsep]
  · obtain ⟨f, hf, hcf⟩ := mem_fields hc hne
    exact h f hf c hcf

/-- INTERNAL: a port range has the characters of one. -/
theorem isPort_of_isPortRange {w : Text} (h : isPortRange w = true) : isPort w = true := by
  simp only [isPortRange, Bool.and_eq_true, List.all_eq_true] at h
  refine all_of_fields ':' (by decide) fun f hf c hc => ?_
  have hport := h.2 f hf
  simp only [isPortNumber, Bool.and_eq_true, List.all_eq_true] at hport
  simp [hport.1.2 c hc]

/-- INTERNAL: a dotted quad has the characters of a mask. -/
theorem isMask_of_isDottedQuad {w : Text} (h : isDottedQuad w = true) : isMask w = true := by
  simp only [isDottedQuad, Bool.and_eq_true, List.all_eq_true] at h
  refine all_of_fields '.' (by decide) fun f hf c hc => ?_
  have hoctet := h.2 f hf
  simp only [isOctet, Bool.and_eq_true, List.all_eq_true] at hoctet
  simp [hoctet.1.2 c hc]

/-- INTERNAL: so does an address with a mask. -/
theorem isMask_of_isIpMask {w : Text} (h : isIpMask w = true) : isMask w = true := by
  have hfield : ∀ f ∈ fields '/' w, isMask f = true := by
    unfold isIpMask at h
    split at h
    · next ip hfields =>
      intro f hf
      rw [hfields, List.mem_singleton] at hf
      exact hf ▸ isMask_of_isDottedQuad h
    · next ip mask hfields =>
      rw [Bool.and_eq_true, Bool.or_eq_true] at h
      intro f hf
      rw [hfields, List.mem_cons, List.mem_singleton] at hf
      rcases hf with rfl | rfl
      · exact isMask_of_isDottedQuad h.1
      · rcases h.2 with hmask | hmask
        · exact isMask_of_isDottedQuad hmask
        · simp only [isMaskLength, Bool.and_eq_true, List.all_eq_true] at hmask
          simp only [isMask, List.all_eq_true]
          exact fun c hc => by simp [hmask.1.2 c hc]
    · cases h
  refine all_of_fields '/' (by decide) fun f hf c hc => ?_
  have hmask := hfield f hf
  rw [isMask, List.all_eq_true] at hmask
  exact hmask c hc

/-- INTERNAL: the protocols that start as one with ports does are the two that have them. -/
theorem hasPorts_iff {p : Text} (h : p ∈ protocols) :
    hasPorts p = true ↔ p = "tcp".toList ∨ p = "udp".toList := by
  revert p
  decide

/-- INTERNAL: **an argument of the documented form is taken** with every word exact. -/
theorem Documented.reading {arg : Text} {rule : FirewallRule} (h : Documented arg rule) :
    ∃ r : RuleReading, ∃ target, targetOfWord r.kind = some target ∧
      r.words = words isBlank (arg.map Char.toLower) ∧ r.Taken ∧ r.Exact ∧
      rule = r.rule target := by
  obtain ⟨kind, destination, hkind, hprotocol, hport, hdest, hwords⟩ := h
  obtain ⟨target, protocol, port, mask⟩ := rule
  have htarget := targetOfWord_iff.mpr hkind
  have hstarts : ∀ p ∈ protocols, startsProtocol p = true := by decide
  have hports : ∀ n, port = some n → protocol.any hasPorts = true := by
    intro n hn
    rcases (hport n hn).2 with h | h <;> dsimp only at h <;> rw [h] <;> decide
  -- the address is the word behind `to`, if there is one
  obtain ⟨d, hd, hto, rfl⟩ : ∃ d : Option Text, (∀ ip, d = some ip → isIpMask ip = true) ∧
      destination = d.elim [] (fun ip => ["to".toList, ip]) ∧
      mask = some (d.getD "0.0.0.0/0".toList) := by
    rcases hdest with ⟨rfl, hmask⟩ | ⟨ip, hip, rfl, hmask⟩
    · exact ⟨none, by rintro ip ⟨⟩, rfl, hmask⟩
    · exact ⟨some ip, by rintro _ ⟨⟩; exact hip, rfl, hmask⟩
  refine ⟨⟨kind, protocol, port.map fun n => ("port".toList, some n), d.map fun m => (m, [])⟩,
    target, htarget, ?_, ⟨?_, fun p hp => hstarts p (hprotocol p hp), ?_, ?_⟩,
    ⟨hprotocol, ?_, ?_⟩, ?_⟩
  · rw [hwords, hto]
    cases port <;> cases d <;> simp [RuleReading.words]
  · rw [htarget]
    rfl
  · intro keyword number h
    obtain ⟨n, hn, heq⟩ := Option.map_eq_some_iff.mp h
    obtain ⟨rfl, rfl⟩ := Prod.mk.inj heq
    refine ⟨by decide, hports n hn, ?_, by rintro ⟨⟩⟩
    rintro _ ⟨⟩
    exact isPort_of_isPortRange (hport n hn).1
  · intro m beyond h
    obtain ⟨ip, hip, heq⟩ := Option.map_eq_some_iff.mp h
    obtain ⟨rfl, -⟩ := Prod.mk.inj heq
    exact isMask_of_isIpMask (hd ip hip)
  · intro keyword number h
    obtain ⟨n, hn, heq⟩ := Option.map_eq_some_iff.mp h
    obtain ⟨rfl, rfl⟩ := Prod.mk.inj heq
    exact ⟨rfl, n, rfl, (hport n hn).1⟩
  · intro m beyond h
    obtain ⟨ip, hip, heq⟩ := Option.map_eq_some_iff.mp h
    obtain ⟨rfl, rfl⟩ := Prod.mk.inj heq
    exact ⟨hd ip hip, rfl⟩
  · cases port <;> cases d <;> rfl

/-- INTERNAL: **words that are taken with every word exact** have the documented form. -/
theorem RuleReading.Exact.documented {r : RuleReading} (hexact : r.Exact) (htaken : r.Taken)
    {arg : Text} (hwords : r.words = TextLines.words isBlank (arg.map Char.toLower))
    {target : FirewallTarget} (htarget : targetOfWord r.kind = some target) :
    Documented arg (r.rule target) := by
  obtain ⟨kind, protocol, port, destination⟩ := r
  refine ⟨kind, destination.elim [] fun d => "to".toList :: d.1 :: d.2,
    targetOfWord_iff.mp htarget, hexact.protocol, ?_, ?_, ?_⟩
  · intro n hn
    obtain ⟨⟨keyword, number⟩, hp, rfl⟩ := Option.map_eq_some_iff.mp hn
    obtain ⟨-, m, rfl, hrange⟩ := hexact.port keyword number hp
    obtain ⟨p, hprotocol, hports⟩ := (Option.any_eq_true _ _).mp (htaken.port keyword _ hp).2.1
    obtain rfl : protocol = some p := hprotocol
    rcases (hasPorts_iff (hexact.protocol p rfl)).mp hports with rfl | rfl
    · exact ⟨hrange, Or.inl rfl⟩
    · exact ⟨hrange, Or.inr rfl⟩
  · cases hd : destination with
    | none => exact Or.inl ⟨rfl, rfl⟩
    | some d =>
      obtain ⟨mask, beyond⟩ := d
      obtain ⟨hip, rfl⟩ := hexact.destination mask beyond hd
      exact Or.inr ⟨mask, hip, rfl, rfl⟩
  · rw [← hwords]
    cases hp : port with
    | none => rfl
    | some p =>
      obtain ⟨keyword, number⟩ := p
      obtain ⟨rfl, n, rfl, -⟩ := hexact.port keyword number hp
      rfl

/-! ## The words that are taken -/

/-- INTERNAL: the word before an address is neither a protocol nor `port`. -/
theorem to_is_no_other :
    startsProtocol "to".toList = false ∧ "port".toList.isPrefixOf "to".toList = false := by
  decide

section Reading

variable {kind : Text} {protocol : Option Text} {port : Option (Text × Option Text)}
  {destination : Option (Text × List Text)}

/-- INTERNAL: an address that is taken is read back. -/
theorem takeMask_taken (h : (RuleReading.mk kind protocol port destination).Taken) :
    takeMask (destination.elim [] fun d => "to".toList :: d.1 :: d.2) =
      some ((destination.map Prod.fst).getD "0.0.0.0/0".toList) := by
  cases hd : destination with
  | none => rfl
  | some d =>
    obtain ⟨mask, beyond⟩ := d
    simp [takeMask, h.destination mask beyond hd]

/-- INTERNAL: a port that is taken is read back, and the address is left. -/
theorem takePort_taken (h : (RuleReading.mk kind protocol port destination).Taken) :
    takePort protocol ((port.elim [] fun p => p.1 :: p.2.toList) ++
        destination.elim [] fun d => "to".toList :: d.1 :: d.2) =
      some (port.map fun p => p.2.getD [],
        destination.elim [] fun d => "to".toList :: d.1 :: d.2) := by
  cases hp : port with
  | none =>
    cases hd : destination with
    | none => rfl
    | some d =>
      change takePort protocol ("to".toList :: d.1 :: d.2) = some (none, "to".toList :: d.1 :: d.2)
      rw [takePort, to_is_no_other.2]
      rfl
  | some p =>
    obtain ⟨keyword, number⟩ := p
    obtain ⟨hkeyword, hports, hnumber, hlast⟩ := h.port keyword number hp
    dsimp only at hports hlast
    cases number with
    | none =>
      rw [hlast rfl]
      change takePort protocol [keyword] = some (some [], [])
      rw [takePort, if_pos hkeyword, hports]
      rfl
    | some n =>
      change takePort protocol (keyword :: n :: _) = some (some n, _)
      rw [takePort, if_pos hkeyword, hports, List.headD_cons, hnumber n rfl]
      rfl

/-- INTERNAL: a protocol that is taken is read back, and the port and the address are left. -/
theorem takeProtocol_taken (h : (RuleReading.mk kind protocol port destination).Taken) :
    takeProtocol (protocol.toList ++ (port.elim [] fun p => p.1 :: p.2.toList) ++
        destination.elim [] fun d => "to".toList :: d.1 :: d.2) =
      (protocol, (port.elim [] fun p => p.1 :: p.2.toList) ++
        destination.elim [] fun d => "to".toList :: d.1 :: d.2) := by
  cases hproto : protocol with
  | some p => simp [takeProtocol, h.protocol p hproto]
  | none =>
    cases hp : port with
    | some p =>
      have hports := (h.port p.1 p.2 hp).2.1
      dsimp only at hports
      rw [hproto] at hports
      cases hports
    | none =>
      cases hd : destination with
      | none => rfl
      | some d =>
        change takeProtocol ("to".toList :: d.1 :: d.2) = (none, "to".toList :: d.1 :: d.2)
        rw [takeProtocol, to_is_no_other.1]
        rfl

end Reading

/-- INTERNAL: the words that are taken write their rule.
SOURCE: conf.c:539-640 -/
theorem ruleOfWords_taken {r : RuleReading} (h : r.Taken) {target : FirewallTarget}
    (htarget : targetOfWord r.kind = some target) : ruleOfWords r.words = some (r.rule target) := by
  obtain ⟨kind, protocol, port, destination⟩ := r
  simp only [RuleReading.words, ruleOfWords, htarget, takeProtocol_taken h, takePort_taken h,
    takeMask_taken h, bind, Option.bind_some, pure]
  rfl

/-- INTERNAL: what the first words say of a protocol.
SOURCE: conf.c:581-588 -/
theorem takeProtocol_sound (ws : List Text) :
    ws = (takeProtocol ws).1.toList ++ (takeProtocol ws).2 ∧
      ∀ p, (takeProtocol ws).1 = some p → startsProtocol p = true := by
  cases ws with
  | nil => exact ⟨rfl, by rintro p ⟨⟩⟩
  | cons w ws =>
    rw [takeProtocol]
    split
    · next hw => exact ⟨rfl, by rintro _ ⟨⟩; exact hw⟩
    · exact ⟨rfl, by rintro p ⟨⟩⟩

/-- INTERNAL: what the next words say of a port.
SOURCE: conf.c:590-608 -/
theorem takePort_sound {protocol : Option Text} {ws rest : List Text} {port : Option Text}
    (h : takePort protocol ws = some (port, rest)) :
    ∃ p : Option (Text × Option Text), ws = (p.elim [] fun p => p.1 :: p.2.toList) ++ rest ∧
      (∀ keyword number, p = some (keyword, number) →
        "port".toList.isPrefixOf keyword = true ∧ protocol.any hasPorts = true ∧
        (∀ n, number = some n → isPort n = true) ∧ (number = none → rest = [])) ∧
      port = p.map fun p => p.2.getD [] := by
  unfold takePort at h
  split at h
  · cases h
    exact ⟨none, rfl, by rintro k n ⟨⟩, rfl⟩
  · next w ws =>
    split at h
    · next hw =>
      split at h
      · next htest =>
        rw [Bool.and_eq_true] at htest
        cases h
        cases ws with
        | nil =>
          refine ⟨some (w, none), rfl, ?_, rfl⟩
          rintro _ _ ⟨⟩
          exact ⟨hw, htest.1, by rintro n ⟨⟩, fun _ => rfl⟩
        | cons n ws =>
          refine ⟨some (w, some n), rfl, ?_, rfl⟩
          rintro _ _ ⟨⟩
          refine ⟨hw, htest.1, ?_, by rintro ⟨⟩⟩
          rintro _ ⟨⟩
          exact htest.2
      · cases h
    · cases h
      exact ⟨none, rfl, by rintro k n ⟨⟩, rfl⟩

/-- INTERNAL: what the words behind them say of an address.
SOURCE: conf.c:610-633 -/
theorem takeMask_sound {ws : List Text} {mask : Text} (h : takeMask ws = some mask) :
    ∃ d : Option (Text × List Text), ws = (d.elim [] fun d => "to".toList :: d.1 :: d.2) ∧
      (∀ m beyond, d = some (m, beyond) → isMask m = true) ∧
      mask = (d.map Prod.fst).getD "0.0.0.0/0".toList := by
  unfold takeMask at h
  split at h
  · exact ⟨none, rfl, by rintro m beyond ⟨⟩, (Option.some.inj h).symm⟩
  · cases h
  · next kw m beyond =>
    split at h
    · next hkw =>
      obtain rfl := Option.some.inj h
      refine ⟨some (m, beyond), by rw [hkw.1]; rfl, ?_, rfl⟩
      rintro _ _ ⟨⟩
      exact hkw.2
    · cases h

/-- INTERNAL: words that write a rule are taken so.
SOURCE: conf.c:539-640 -/
theorem exists_taken {ws : List Text} {rule : FirewallRule} (h : ruleOfWords ws = some rule) :
    ∃ r : RuleReading, ∃ target, targetOfWord r.kind = some target ∧ r.words = ws ∧ r.Taken ∧
      rule = r.rule target := by
  cases ws with
  | nil => cases h
  | cons kind ws =>
    obtain ⟨target, htarget, h⟩ := Option.bind_eq_some_iff.mp h
    obtain ⟨hwords, hstarts⟩ := takeProtocol_sound ws
    generalize takeProtocol ws = taken at h hwords hstarts
    obtain ⟨protocol, ws₁⟩ := taken
    obtain ⟨⟨port, ws₂⟩, hport, h⟩ := Option.bind_eq_some_iff.mp h
    obtain ⟨mask, hmask, h⟩ := Option.bind_eq_some_iff.mp h
    obtain rfl := Option.some.inj h
    obtain ⟨p, hws₁, htaken, rfl⟩ := takePort_sound hport
    obtain ⟨d, rfl, hdest, rfl⟩ := takeMask_sound hmask
    refine ⟨⟨kind, protocol, p, d⟩, target, htarget, ?_, ⟨?_, hstarts, ?_, hdest⟩, rfl⟩
    · rw [RuleReading.words, hwords, hws₁, List.append_assoc]
    · rw [htarget]
      rfl
    · intro keyword number hp
      obtain ⟨hkeyword, hports, hnumber, hlast⟩ := htaken keyword number hp
      refine ⟨hkeyword, hports, hnumber, fun hnone => ?_⟩
      have hnil := hlast hnone
      cases d with
      | none => rfl
      | some d => cases hnil

/-- INTERNAL: the words of a destination tell it. -/
theorem destination_words_inj {d d' : Option (Text × List Text)}
    (h : (d.elim [] fun d => "to".toList :: d.1 :: d.2) =
      d'.elim [] fun d => "to".toList :: d.1 :: d.2) : d = d' := by
  cases d with
  | none =>
    cases d' with
    | none => rfl
    | some d' => cases h
  | some d =>
    cases d' with
    | none => cases h
    | some d' =>
      obtain ⟨hmask, hbeyond⟩ := List.cons.inj (List.cons.inj h).2
      exact congrArg some (Prod.ext hmask hbeyond)

/-- INTERNAL: words are taken in one way: they write one rule, and the keyword and what stands
behind the address are read off them. -/
theorem RuleReading.Taken.unique {r r' : RuleReading} (h : r.Taken) (h' : r'.Taken)
    (hwords : r.words = r'.words) : r = r' := by
  obtain ⟨target, htarget⟩ := Option.isSome_iff_exists.mp h.kind
  obtain ⟨target', htarget'⟩ := Option.isSome_iff_exists.mp h'.kind
  have hrule := ruleOfWords_taken h htarget
  rw [hwords, ruleOfWords_taken h' htarget', Option.some.injEq] at hrule
  obtain ⟨kind, protocol, port, destination⟩ := r
  obtain ⟨kind', protocol', port', destination'⟩ := r'
  obtain ⟨rfl, hwords⟩ := List.cons.inj hwords
  obtain rfl : protocol' = protocol := congrArg FirewallRule.protocol hrule
  have hport : port'.map (fun p => p.2.getD []) = port.map fun p => p.2.getD [] :=
    congrArg FirewallRule.port hrule
  dsimp only at hwords
  rw [List.append_assoc, List.append_assoc, List.append_cancel_left_eq] at hwords
  cases port with
  | none =>
    obtain rfl : port' = none := Option.map_eq_none_iff.mp hport
    rw [destination_words_inj hwords]
  | some p =>
    obtain ⟨⟨keyword', number'⟩, rfl, -⟩ := Option.map_eq_some_iff.mp hport
    obtain ⟨keyword, number⟩ := p
    obtain ⟨rfl, hwords⟩ := List.cons.inj hwords
    have hlast := (h.port _ _ rfl).2.2.2
    have hlast' := (h'.port _ _ rfl).2.2.2
    dsimp only at hlast hlast' hwords
    cases number with
    | none =>
      obtain rfl := hlast rfl
      cases number' with
      | none => rw [hlast' rfl]
      | some n => cases hwords
    | some n =>
      cases number' with
      | none =>
        rw [hlast' rfl] at hwords
        cases hwords
      | some n' =>
        obtain ⟨hn, hdest⟩ := List.cons.inj hwords
        rw [hn, destination_words_inj hdest]

/-! ## Where the two agree -/

/-- INTERNAL: no blank stands at an end of an argument in lower case. -/
theorem Trimmed.toLower {arg : Text} (h : Trimmed arg) : Trimmed (arg.map Char.toLower) := by
  constructor <;> intro c hc
  · rw [List.head?_map] at hc
    obtain ⟨d, hd, rfl⟩ := Option.map_eq_some_iff.mp hc
    rw [isBlank_toLower]
    exact h.1 d hd
  · rw [List.getLast?_map] at hc
    obtain ⟨d, hd, rfl⟩ := Option.map_eq_some_iff.mp hc
    rw [isBlank_toLower]
    exact h.2 d hd

/-- INTERNAL: the arguments that are accepted are those that write a rule.
SOURCE: conf.c:539-662 -/
theorem parseFirewallRule_ok_iff_written {arg : Text} (h : Trimmed (arg.map Char.toLower))
    {rule : FirewallRule} : parseFirewallRule arg = .ok rule ↔ writtenRule arg = some rule := by
  rw [← parseFirewallRule_eq h]
  cases parseFirewallRule arg <;> simp [Except.toOption]

/-- INTERNAL: the arguments that are accepted are those whose words are taken.
SOURCE: conf.c:539-662 -/
theorem parseFirewallRule_ok_iff {arg : Text} (h : Trimmed arg) {rule : FirewallRule} :
    parseFirewallRule arg = .ok rule ↔ ∃ r : RuleReading, ∃ target,
      targetOfWord r.kind = some target ∧ r.words = words isBlank (arg.map Char.toLower) ∧
      r.Taken ∧ rule = r.rule target := by
  rw [parseFirewallRule_ok_iff_written h.toLower, writtenRule]
  constructor
  · exact exists_taken
  · rintro ⟨r, target, htarget, hwords, htaken, rfl⟩
    rw [← hwords]
    exact ruleOfWords_taken htaken htarget

/-- **The parser accepts the documented grammar** exactly on the arguments whose words, where
they are taken at all, are what they are taken for: a protocol, `port`, a port range and an
address, with nothing behind it.
SOURCE: conf.c:539-662 -/
theorem documented_rules_iff {arg : Text} (h : Trimmed arg) :
    AcceptsDocumented arg ↔ ∀ r : RuleReading, r.words = words isBlank (arg.map Char.toLower) →
      r.Taken → r.Exact := by
  constructor
  · intro hdoc r hwords htaken
    obtain ⟨target, htarget⟩ := Option.isSome_iff_exists.mp htaken.kind
    have hok := (parseFirewallRule_ok_iff h).mpr ⟨r, target, htarget, hwords, htaken, rfl⟩
    obtain ⟨r', target', -, hwords', htaken', hexact, -⟩ :=
      (hdoc.appends _ hok).1.reading
    rw [htaken.unique htaken' (hwords.trans hwords'.symm)]
    exact hexact
  · intro hexact
    have hdoc : ∀ rule, parseFirewallRule arg = .ok rule → Documented arg rule := by
      intro rule hok
      obtain ⟨r, target, htarget, hwords, htaken, rfl⟩ := (parseFirewallRule_ok_iff h).mp hok
      exact (hexact r hwords htaken).documented htaken hwords htarget
    refine ⟨⟨?_, ?_⟩, fun rule hok => ⟨hdoc rule hok, ?_⟩, ?_⟩
    · rintro ⟨rule, hok⟩
      exact ⟨rule, hdoc rule hok⟩
    · rintro ⟨rule, hrule⟩
      obtain ⟨r, target, htarget, hwords, htaken, -, rfl⟩ := hrule.reading
      exact ⟨_, (parseFirewallRule_ok_iff h).mpr ⟨r, target, htarget, hwords, htaken, rfl⟩⟩
    · intro name c
      rw [addFirewallRule, hok]
    · intro hrefused name c
      rw [addFirewallRule]
      split
      · next rule hok => exact absurd hok (hrefused rule)
      · rfl

/-- An argument of the documented form. -/
def sampleRuleArgument : Text := "Allow tcp port 1024:1028 to 10.0.0.0/8".toList

/-- Its words. -/
def sampleReading : RuleReading :=
  { kind := "allow".toList
    protocol := some "tcp".toList
    port := some ("port".toList, some "1024:1028".toList)
    destination := some ("10.0.0.0/8".toList, []) }

theorem documented_rules_iff_sample :
    Trimmed sampleRuleArgument ∧ AcceptsDocumented sampleRuleArgument := by
  have htrimmed : Trimmed sampleRuleArgument := by
    constructor <;> intro c hc <;> cases hc <;> rfl
  have hwords : sampleReading.words = words isBlank (sampleRuleArgument.map Char.toLower) := by
    decide +kernel
  have htaken : sampleReading.Taken := by
    refine ⟨rfl, ?_, ?_, ?_⟩
    · rintro _ ⟨⟩
      decide
    · rintro _ _ ⟨⟩
      exact ⟨by decide, by decide, by rintro _ ⟨⟩; decide, by rintro ⟨⟩⟩
    · rintro _ _ ⟨⟩
      decide
  refine ⟨htrimmed, (documented_rules_iff htrimmed).mpr fun r hr hrtaken => ?_⟩
  rw [hrtaken.unique htaken (hr.trans hwords.symm)]
  refine ⟨?_, ?_, ?_⟩
  · rintro _ ⟨⟩
    decide
  · rintro _ _ ⟨⟩
    exact ⟨rfl, _, rfl, by decide⟩
  · rintro _ _ ⟨⟩
    exact ⟨by decide, rfl⟩

/-- `tcpip` is taken for a protocol.
SOURCE: conf.c:582-588 -/
theorem undocumented_rule_accepted : ¬AcceptsDocumented "allow tcpip".toList := by
  intro h
  have hok : parseFirewallRule "allow tcpip".toList = .ok
      { target := .accept, protocol := some "tcpip".toList, mask := some "0.0.0.0/0".toList } := rfl
  obtain ⟨-, -, -, hprotocol, -⟩ := (h.appends _ hok).1
  exact absurd (hprotocol _ rfl) (by decide)

end WifiCat.Analysis
