import WifiCat.Library.Query

/-!
# Form encoding

A form's pairs are written into a URL with the characters that are not kept as `%XX`, and
read back with `+` standing for a blank.  An encoder that keeps `+` therefore loses it:
`formDecode_percentEncode`.  `formPairs_prefix_iff` says which pairs are read back of a
query that was cut.
-/

set_option autoImplicit false

namespace Query

open Scan

/-! ## Reading -/

/-- `+` stands for a blank. -/
def plusToSpace (s : Text) : Text := s.map fun c => if c = '+' then ' ' else c

/-- Decode a name or a value. -/
def formDecode (s : Text) : Text := percentDecode (plusToSpace s)

/-- The pairs of a form's query string. -/
def formPairs (query : Text) : Option (List (Text × Text)) := pairs (plusToSpace query)

/-- A URL, cut at its first `?`; the query ends at the fragment. -/
def splitUrl (url : Text) : Option (Text × Text) :=
  let bare := url.takeWhile (· != '#')
  match bare.dropWhile (· != '?') with
  | [] => none
  | _ :: query => some (bare.takeWhile (· != '?'), query)

theorem splitUrl_append {target query : Text} (hask : '?' ∉ target) (hhash : '#' ∉ target)
    (hquery : '#' ∉ query) : splitUrl (target ++ '?' :: query) = some (target, query) := by
  have hbare : (target ++ '?' :: query).takeWhile (· != '#') = target ++ '?' :: query := by
    refine List.takeWhile_eq_self_iff.mpr fun c hc => ?_
    rcases List.mem_append.mp hc with hc | hc
    · simpa using fun h : c = '#' => hhash (h ▸ hc)
    · rcases List.mem_cons.mp hc with rfl | hc
      · decide
      · simpa using fun h : c = '#' => hquery (h ▸ hc)
  have hall : ∀ c ∈ target, (c != '?') = true := fun c hc => by
    simpa using fun h : c = '?' => hask (h ▸ hc)
  simp only [splitUrl, hbare, List.dropWhile_append_of_pos hall, List.takeWhile_append_of_pos hall]
  simp

theorem splitUrl_eq_some {url target query : Text} (h : splitUrl url = some (target, query)) :
    target ++ '?' :: query <+: url ∧ '?' ∉ target ∧ '#' ∉ target := by
  have hbare := List.takeWhile_append_dropWhile (p := (· != '?')) (l := url.takeWhile (· != '#'))
  unfold splitUrl at h
  dsimp only at h
  split at h
  · cases h
  · next c rest hdrop =>
    have hc : c = '?' := by
      have hhead := List.head?_dropWhile_not (p := (· != '?')) (l := url.takeWhile (· != '#'))
      rw [hdrop] at hhead
      simpa using hhead
    simp only [Option.some.injEq, Prod.mk.injEq] at h
    obtain ⟨rfl, rfl⟩ := h
    rw [hdrop, hc] at hbare
    refine ⟨?_, fun hmem => ?_, fun hmem => ?_⟩
    · rw [hbare]
      exact List.takeWhile_prefix _
    · simpa using List.mem_takeWhile_imp hmem
    · simpa using List.mem_takeWhile_imp ((List.takeWhile_prefix _).subset hmem)

/-! ## Writing -/

/-- A digit, in upper case. -/
def upperHex (n : ℕ) : Char := if n < 10 then Char.ofNat (48 + n) else Char.ofNat (55 + n)

/-- A character as it is written. -/
def percentEncodeChar (keep : Char → Bool) (c : Char) : Text :=
  if keep c then [c] else ['%', upperHex (c.toNat / 16), upperHex (c.toNat % 16)]

/-- A text as it is written: the characters that are not kept as `%XX`. -/
def percentEncode (keep : Char → Bool) (s : Text) : Text := s.flatMap (percentEncodeChar keep)

/-- Characters of one byte. -/
def Bytes (s : Text) : Prop := ∀ c ∈ s, c.toNat < 256

instance (s : Text) : Decidable (Bytes s) := inferInstanceAs (Decidable (∀ c ∈ s, _))

@[simp] theorem percentEncode_nil (keep : Char → Bool) : percentEncode keep [] = [] := rfl

theorem percentEncode_cons (keep : Char → Bool) (c : Char) (s : Text) :
    percentEncode keep (c :: s) = percentEncodeChar keep c ++ percentEncode keep s :=
  List.flatMap_cons

theorem Bytes.tail {c : Char} {s : Text} (h : Bytes (c :: s)) : Bytes s :=
  fun d hd => h d (List.mem_cons_of_mem _ hd)

/-! ## Decoding what was written -/

theorem upperHex_spec : ∀ n < 16, isHexDigit (upperHex n) = true ∧
    hexDigitValue (upperHex n) = n ∧ upperHex n ≠ '+' := by decide

theorem percentDecode_cons_of_ne {c : Char} (h : c ≠ '%') (s : Text) :
    percentDecode (c :: s) = c :: percentDecode s := by
  rw [percentDecode]
  intro a b t hc
  exact absurd hc h

@[simp] theorem plusToSpace_cons (c : Char) (s : Text) :
    plusToSpace (c :: s) = (if c = '+' then ' ' else c) :: plusToSpace s := rfl

@[simp] theorem plusToSpace_append (s t : Text) :
    plusToSpace (s ++ t) = plusToSpace s ++ plusToSpace t := List.map_append

theorem plusToSpace_eq_self {s : Text} : plusToSpace s = s ↔ '+' ∉ s := by
  induction s with
  | nil => simp [plusToSpace]
  | cons c s ih =>
    rw [plusToSpace_cons, List.cons.injEq, ih, List.mem_cons, not_or]
    have hblank : ' ' ≠ '+' := by decide
    by_cases hc : c = '+'
    · simp [hc]
    · simp [hc, Ne.symm hc]

/-- One character is read back; `+` is, where it is kept, as a blank. -/
theorem formDecode_percentEncodeChar {keep : Char → Bool} (hpercent : keep '%' = false)
    (hplus : keep '+' = true) {c : Char} (hc : c.toNat < 256) (s : Text) :
    formDecode (percentEncodeChar keep c ++ s) =
      (if c = '+' then ' ' else c) :: formDecode s := by
  unfold percentEncodeChar formDecode
  split
  · next hkeep =>
    have hne : (if c = '+' then ' ' else c) ≠ '%' := by
      split
      · decide
      · rintro rfl
        rw [hpercent] at hkeep
        cases hkeep
    rw [List.singleton_append, plusToSpace_cons, percentDecode_cons_of_ne hne]
  · next hkeep =>
    obtain ⟨hdigit₁, hvalue₁, hplus₁⟩ := upperHex_spec (c.toNat / 16) (by omega)
    obtain ⟨hdigit₂, hvalue₂, hplus₂⟩ := upperHex_spec (c.toNat % 16) (by omega)
    have hne : c ≠ '+' := by
      rintro rfl
      exact hkeep hplus
    have hchar : Char.ofNat (16 * (c.toNat / 16) + c.toNat % 16) = c := by
      rw [Nat.div_add_mod]
      exact Char.ofNat_toNat c
    rw [if_neg hne]
    simp only [List.cons_append, List.nil_append, plusToSpace_cons, if_neg hplus₁, if_neg hplus₂]
    rw [if_neg (by decide), percentDecode, hdigit₁, hdigit₂, hvalue₁, hvalue₂, hchar]
    rfl

/-- What is read back of a text: the text, with a blank for every `+` that was kept. -/
theorem formDecode_percentEncode {keep : Char → Bool} (hpercent : keep '%' = false)
    (hplus : keep '+' = true) {s : Text} (hs : Bytes s) :
    formDecode (percentEncode keep s) = plusToSpace s := by
  induction s with
  | nil => rfl
  | cons c s ih =>
    rw [percentEncode_cons, formDecode_percentEncodeChar hpercent hplus (hs c List.mem_cons_self),
      ih hs.tail, plusToSpace_cons]

/-- A cut text is not read back, unless it holds the signs that are read as something else. -/
theorem eq_of_prefix_percentEncode {keep : Char → Bool} (hpercent : keep '%' = false)
    (hplus : keep '+' = true) {s v : Text} (hs : Bytes s) (hmem : '%' ∉ s)
    (hv : v <+: percentEncode keep s) (hread : formDecode v = s) : v = percentEncode keep s := by
  induction s generalizing v with
  | nil => exact List.prefix_nil.mp hv
  | cons c s ih =>
    rw [List.mem_cons, not_or] at hmem
    rw [percentEncode_cons] at hv ⊢
    by_cases hlen : (percentEncodeChar keep c).length ≤ v.length
    · -- the first character is there whole
      obtain ⟨w, rfl⟩ := (List.prefix_of_prefix_length_le (List.prefix_append _ _) hv hlen)
      rw [List.prefix_append_right_inj] at hv
      rw [formDecode_percentEncodeChar hpercent hplus (hs c List.mem_cons_self)] at hread
      rw [ih hs.tail hmem.2 hv (List.cons.inj hread).2]
    · -- the text was cut inside it
      have hcut : v <+: percentEncodeChar keep c :=
        List.prefix_of_prefix_length_le hv (List.prefix_append _ _) (by omega)
      rcases v with _ | ⟨d, v⟩
      · cases hread
      · exfalso
        unfold percentEncodeChar at hcut hlen
        split at hcut
        · next hkeep =>
          rw [if_pos hkeep] at hlen
          simp at hlen
        · next hkeep =>
          rw [if_neg hkeep] at hlen
          obtain ⟨rfl, hcut⟩ := List.cons_prefix_cons.mp hcut
          have hhead : (formDecode ('%' :: v)).head? = some '%' := by
            rcases v with _ | ⟨d, _ | ⟨e, v⟩⟩
            · rfl
            · rw [formDecode, plusToSpace_cons, if_neg (by decide)]
              simp [percentDecode, plusToSpace]
            · simp only [List.length_cons, List.length_nil] at hlen
              omega
          rw [hread] at hhead
          exact hmem.1 (Option.some.inj hhead).symm

/-- The characters that are written. -/
theorem mem_percentEncode {keep : Char → Bool} {s : Text} {c : Char} (hs : Bytes s)
    (h : c ∈ percentEncode keep s) : keep c = true ∨ c = '%' ∨ isHexDigit c = true := by
  obtain ⟨d, hd, hc⟩ := List.mem_flatMap.mp h
  have hd' := hs d hd
  unfold percentEncodeChar at hc
  split at hc
  · next hkeep =>
    obtain rfl := List.mem_singleton.mp hc
    exact Or.inl hkeep
  · simp only [List.mem_cons, List.not_mem_nil, or_false] at hc
    rcases hc with rfl | rfl | rfl
    · exact Or.inr (Or.inl rfl)
    · exact Or.inr (Or.inr (upperHex_spec _ (by omega)).1)
    · exact Or.inr (Or.inr (upperHex_spec _ (by omega)).1)

/-- A text that is kept whole is written as it is. -/
theorem percentEncode_eq_self {keep : Char → Bool} {s : Text} (h : ∀ c ∈ s, keep c = true) :
    percentEncode keep s = s := by
  induction s with
  | nil => rfl
  | cons c s ih =>
    rw [percentEncode_cons, percentEncodeChar, if_pos (h c List.mem_cons_self),
      ih fun d hd => h d (List.mem_cons_of_mem _ hd)]
    rfl

/-! ## Pairs -/

/-- Pairs as a form writes them. -/
def encodePairs (keep : Char → Bool) (ps : List (Text × Text)) : Text :=
  unpairs (ps.map fun p => (p.1, percentEncode keep p.2))

/-- A text that is written and read as it is. -/
def PlainName (w : Text) : Prop := Plain w ∧ '+' ∉ w

instance (w : Text) : Decidable (PlainName w) := inferInstanceAs (Decidable (_ ∧ _))

/-- An encoder: it keeps none of the signs of a query, but `+`. -/
structure KeepsPlus (keep : Char → Bool) : Prop where
  percent : keep '%' = false
  amp : keep '&' = false
  eq : keep '=' = false
  plus : keep '+' = true

theorem KeepsPlus.not_mem {keep : Char → Bool} {c : Char} (hkeep : keep c = false)
    (hpercent : c ≠ '%') (hhex : isHexDigit c = false) {s : Text} (hs : Bytes s) :
    c ∉ percentEncode keep s := by
  intro h
  rcases mem_percentEncode hs h with h | h | h
  · rw [hkeep] at h
    cases h
  · exact hpercent h
  · rw [hhex] at h
    cases h

theorem mem_plusToSpace {c : Char} (h₁ : c ≠ '+') (h₂ : c ≠ ' ') {s : Text} :
    c ∈ plusToSpace s ↔ c ∈ s := by
  rw [plusToSpace, List.mem_map]
  constructor
  · rintro ⟨d, hd, heq⟩
    split at heq
    · exact absurd heq.symm h₂
    · exact heq ▸ hd
  · intro hc
    exact ⟨c, hc, if_neg h₁⟩

theorem plusToSpace_unpair (p : Text × Text) :
    plusToSpace (unpair p) = unpair (plusToSpace p.1, plusToSpace p.2) := by
  rw [unpair, plusToSpace_append, plusToSpace_cons, if_neg (by decide), unpair]

/-- One pair is read back with a blank for every `+`. -/
theorem pair_plusToSpace_unpair {keep : Char → Bool} (hkeep : KeepsPlus keep) {p : Text × Text}
    (hname : PlainName p.1) (hvalue : Bytes p.2) :
    pair (plusToSpace (unpair (p.1, percentEncode keep p.2))) = some (p.1, plusToSpace p.2) := by
  have hnot : '=' ∉ percentEncode keep p.2 :=
    KeepsPlus.not_mem hkeep.eq (by decide) (by decide) hvalue
  have hpair := @pair_unpair (p.1, plusToSpace (percentEncode keep p.2)) hname.1.2.1
    (mt (mem_plusToSpace (by decide) (by decide)).mp hnot)
  have hdecode := formDecode_percentEncode hkeep.percent hkeep.plus hvalue
  rw [plusToSpace_unpair]
  dsimp only
  rw [plusToSpace_eq_self.mpr hname.2, hpair]
  dsimp only
  rw [hname.1.2.2, ← hdecode, formDecode]

/-- A pair that was cut and is read back was not cut. -/
theorem eq_of_prefix_unpair {keep : Char → Bool} (hkeep : KeepsPlus keep) {p : Text × Text}
    (hname : PlainName p.1) (hvalue : Bytes p.2) (hmem : '%' ∉ p.2) {w : Text}
    (hw : w <+: unpair (p.1, percentEncode keep p.2)) (hread : pair (plusToSpace w) = some p) :
    w = unpair (p.1, percentEncode keep p.2) := by
  obtain ⟨raw, hraw, -, heq, hp⟩ := pair_eq_some hread
  have hmemw : '=' ∈ w := by
    rw [← mem_plusToSpace (by decide) (by decide), hraw, unpair]
    simp
  unfold unpair at hw ⊢
  dsimp only at hw ⊢
  -- the cut leaves the name and `=` whole
  have hlen : p.1.length < w.length := by
    by_contra hle
    have hpre := List.prefix_of_prefix_length_le hw (List.prefix_append p.1 _) (by omega)
    exact hname.1.2.1 (hpre.subset hmemw)
  have hstart : p.1 ++ ['='] <+: p.1 ++ '=' :: percentEncode keep p.2 :=
    ⟨percentEncode keep p.2, by rw [List.append_assoc, List.singleton_append]⟩
  obtain ⟨v, rfl⟩ := List.prefix_of_prefix_length_le hstart hw (by
    rw [List.length_append, List.length_singleton]
    exact hlen)
  rw [List.append_assoc, List.singleton_append] at hw hread ⊢
  rw [List.prefix_append_right_inj, List.cons_prefix_cons] at hw
  have hnot : '=' ∉ v := fun h =>
    KeepsPlus.not_mem hkeep.eq (by decide) (by decide) hvalue (hw.2.subset h)
  have hpair := @pair_unpair (plusToSpace p.1, plusToSpace v)
    (mt (mem_plusToSpace (by decide) (by decide)).mp hname.1.2.1)
    (mt (mem_plusToSpace (by decide) (by decide)).mp hnot)
  rw [← plusToSpace_unpair (p.1, v), show unpair (p.1, v) = p.1 ++ '=' :: v from rfl, hread]
    at hpair
  have hvalue' : formDecode v = p.2 := (congrArg Prod.snd (Option.some.inj hpair)).symm
  rw [eq_of_prefix_percentEncode hkeep.percent hkeep.plus hvalue hmem hw.2 hvalue']

theorem mapM_eq_some {α β : Type} {f : α → Option β} {l : List α} {r : List β} :
    l.mapM f = some r ↔ l.map f = r.map some := by
  induction l generalizing r with
  | nil => cases r <;> simp
  | cons a l ih =>
    rw [List.mapM_cons, List.map_cons]
    cases r with
    | nil =>
      cases f a with
      | none => simp
      | some b => cases h : l.mapM f <;> simp
    | cons b r =>
      rw [List.map_cons, List.cons.injEq, ← ih]
      cases f a with
      | none => simp
      | some c => cases h : l.mapM f <;> simp

/-- What is appended to a text without a separator goes to its last field. -/
theorem fields_append_of_not_mem {sep : Char} {u : Text} (h : sep ∉ u) (t : Text) :
    ∃ ws w, fields sep t = ws ++ [w] ∧ fields sep (t ++ u) = ws ++ [w ++ u] := by
  induction t with
  | nil => exact ⟨[], [], rfl, fields_of_not_mem h⟩
  | cons c t ih =>
    obtain ⟨ws, w, hs, hs'⟩ := ih
    by_cases hc : c = sep
    · rw [List.cons_append, hc, fields_cons_sep, fields_cons_sep, hs, hs']
      exact ⟨[] :: ws, w, rfl, rfl⟩
    · cases ws with
      | nil => exact ⟨[], c :: w, fields_cons_of_ne hc hs, fields_cons_of_ne hc hs'⟩
      | cons v ws => exact ⟨(c :: v) :: ws, w, fields_cons_of_ne hc hs, fields_cons_of_ne hc hs'⟩

/-- The fields of encoded pairs are the pairs. -/
theorem fields_encodePairs {keep : Char → Bool} (hkeep : KeepsPlus keep)
    {ps : List (Text × Text)} (hne : ps ≠ []) (hnames : ∀ p ∈ ps, PlainName p.1)
    (hvalues : ∀ p ∈ ps, Bytes p.2) :
    fields '&' (encodePairs keep ps) = ps.map fun p => unpair (p.1, percentEncode keep p.2) := by
  rw [encodePairs, unpairs, List.map_map, fields_unfields (by simpa using hne)]
  · rfl
  · intro w hw
    obtain ⟨p, hp, rfl⟩ := List.mem_map.mp hw
    have hnot : '&' ∉ percentEncode keep p.2 :=
      KeepsPlus.not_mem hkeep.amp (by decide) (by decide) (hvalues p hp)
    simp [unpair, (hnames p hp).1.1, hnot]

/-- **Which pairs are read back of a query that was cut**: all of them exactly when nothing was
cut and no value holds a `+`. -/
theorem formPairs_prefix_iff {keep : Char → Bool} (hkeep : KeepsPlus keep)
    {ps : List (Text × Text)} {last : Text × Text} (hnames : ∀ p ∈ ps ++ [last], PlainName p.1)
    (hvalues : ∀ p ∈ ps ++ [last], Bytes p.2) (hmem : '%' ∉ last.2) {query : Text}
    (hq : query <+: encodePairs keep (ps ++ [last])) :
    formPairs query = some (ps ++ [last]) ↔
      query = encodePairs keep (ps ++ [last]) ∧ ∀ p ∈ ps ++ [last], '+' ∉ p.2 := by
  have hfields := fields_encodePairs hkeep (by simp) hnames hvalues
  have hsep : ∀ c, (if c = '+' then ' ' else c) = '&' ↔ c = '&' := by
    intro c
    split
    · next hc => simp [hc]
    · exact Iff.rfl
  have hread : ∀ p ∈ ps ++ [last],
      pair (plusToSpace (unpair (p.1, percentEncode keep p.2))) = some (p.1, plusToSpace p.2) :=
    fun p hp => pair_plusToSpace_unpair hkeep (hnames p hp) (hvalues p hp)
  rw [formPairs, pairs, mapM_eq_some, plusToSpace, fields_map hsep, List.map_map]
  constructor
  · intro h
    obtain ⟨u, hu⟩ := hq
    -- as many pairs were read as were written, so the cut part begins no pair
    have hamp : '&' ∉ u := by
      have hlen := congrArg List.length h
      have hlen' := congrArg List.length hfields
      rw [List.length_map, List.length_map, fields_length] at hlen
      rw [← hu, fields_length, List.count_append, List.length_map] at hlen'
      exact List.count_eq_zero.mp (by omega)
    obtain ⟨ws, w, hws, hws'⟩ := fields_append_of_not_mem hamp query
    rw [hu, hfields, List.map_append, List.map_singleton] at hws'
    obtain ⟨hinit, hlast⟩ := List.append_inj' hws' rfl
    rw [hws, ← hinit, List.map_append, List.map_append] at h
    obtain ⟨hinit', hlast'⟩ := List.append_inj' h rfl
    have hw : w = unpair (last.1, percentEncode keep last.2) :=
      eq_of_prefix_unpair hkeep (hnames last (by simp)) (hvalues last (by simp)) hmem
        ⟨u, (List.cons.inj hlast).1.symm⟩ (List.cons.inj hlast').1
    have hplus : ∀ p ∈ ps ++ [last],
        pair (plusToSpace (unpair (p.1, percentEncode keep p.2))) = some p := by
      intro p hp
      rcases List.mem_append.mp hp with hp | hp
      · rw [List.map_map] at hinit'
        exact List.map_inj_left.mp hinit' p hp
      · obtain rfl := List.mem_singleton.mp hp
        exact hw ▸ (List.cons.inj hlast').1
    refine ⟨?_, fun p hp => ?_⟩
    · rw [← unfields_fields '&' query, hws, ← hinit, hw, ← unfields_fields '&' (encodePairs _ _),
        hfields, List.map_append, List.map_singleton]
    · have heq := (hread p hp).symm.trans (hplus p hp)
      exact plusToSpace_eq_self.mp (congrArg Prod.snd (Option.some.inj heq))
  · rintro ⟨rfl, hplus⟩
    rw [hfields, List.map_map]
    refine List.map_congr_left fun p hp => ?_
    exact (hread p hp).trans (by rw [plusToSpace_eq_self.mpr (hplus p hp)])

end Query
