import WifiCat.Library.Scan

/-!
# Query strings

A query string is read by cutting it at `&`, each field at `=`, and decoding the escapes
`%XX` of both parts.  `unpairs` writes pairs without encoding them.
`pairs_take_unpairs_iff` says when pairs that were written so, and cut after a number of
characters, are read back: exactly when none of the texts holds a separator or an escape and
nothing was cut.
-/

set_option autoImplicit false

namespace Query

open Scan

/-- Decode `%XX`; a `%` that two digits do not follow stays. -/
def percentDecode : Text → Text
  | '%' :: a :: b :: s =>
    if isHexDigit a && isHexDigit b then
      Char.ofNat (16 * hexDigitValue a + hexDigitValue b) :: percentDecode s
    else '%' :: percentDecode (a :: b :: s)
  | c :: s => c :: percentDecode s
  | [] => []

/-- A name and a value. -/
def pair (field : Text) : Option (Text × Text) :=
  match fields '=' field with
  | [name, value] => some (percentDecode name, percentDecode value)
  | _ => none

/-- The pairs of a query string. -/
def pairs (query : Text) : Option (List (Text × Text)) := (fields '&' query).mapM pair

/-- A pair as it is written without encoding. -/
def unpair (p : Text × Text) : Text := p.1 ++ '=' :: p.2

/-- Pairs as they are written without encoding. -/
def unpairs (ps : List (Text × Text)) : Text := unfields '&' (ps.map unpair)

/-- A text that reads as itself. -/
def Plain (w : Text) : Prop := '&' ∉ w ∧ '=' ∉ w ∧ percentDecode w = w

instance (w : Text) : Decidable (Plain w) := inferInstanceAs (Decidable (_ ∧ _ ∧ _))

/-! ## Decoding -/

/-- Decoding never makes a text longer, and one it does not make shorter it leaves as it
is. -/
theorem percentDecode_length (s : Text) :
    (percentDecode s).length ≤ s.length ∧
      ((percentDecode s).length = s.length → percentDecode s = s) := by
  fun_induction percentDecode s with
  | case1 a b s hhex ih =>
    have hle := ih.1
    simp only [List.length_cons]
    exact ⟨by omega, fun h => by omega⟩
  | case2 a b s hhex ih =>
    simp only [List.length_cons] at ih ⊢
    exact ⟨by omega, fun h => by rw [ih.2 (by omega)]⟩
  | case3 c s hnot ih =>
    simp only [List.length_cons]
    exact ⟨by omega, fun h => by rw [ih.2 (by omega)]⟩
  | case4 => simp

/-- A text without `%` reads as itself. -/
theorem percentDecode_of_not_mem {s : Text} (h : '%' ∉ s) : percentDecode s = s := by
  fun_induction percentDecode s with
  | case1 a b s hhex ih => exact absurd (by simp) h
  | case2 a b s hhex ih => exact absurd (by simp) h
  | case3 c s hnot ih => rw [ih fun hs => h (List.mem_cons_of_mem _ hs)]
  | case4 => rfl

/-! ## Pairs -/

/-- A field that is read as a pair is a pair written without encoding. -/
theorem pair_eq_some {field : Text} {p : Text × Text} (h : pair field = some p) :
    ∃ raw : Text × Text, field = unpair raw ∧ '=' ∉ raw.1 ∧ '=' ∉ raw.2 ∧
      p = (percentDecode raw.1, percentDecode raw.2) := by
  unfold pair at h
  split at h
  · next name value hfields =>
    have hparts : ∀ w ∈ [name, value], '=' ∉ w := fun w hw =>
      not_mem_of_mem_fields (hfields ▸ hw)
    refine ⟨(name, value), ?_, hparts name (by simp), hparts value (by simp),
      (Option.some.inj h).symm⟩
    have hglue := unfields_fields '=' field
    rw [hfields] at hglue
    rw [← hglue]
    simp [unfields, unpair]
  · cases h

/-- A pair without `=` is read back, decoded. -/
theorem pair_unpair {raw : Text × Text} (h₁ : '=' ∉ raw.1) (h₂ : '=' ∉ raw.2) :
    pair (unpair raw) = some (percentDecode raw.1, percentDecode raw.2) := by
  rw [pair, unpair, fields_append_sep h₁, fields_of_not_mem h₂]

/-- The number of characters of pairs that are written without encoding. -/
theorem unpairs_length {ps : List (Text × Text)} (hne : ps ≠ []) :
    (unpairs ps).length + 1 = (ps.map fun p => p.1.length + p.2.length + 2).sum := by
  induction ps with
  | nil => exact absurd rfl hne
  | cons p ps ih =>
    cases ps with
    | nil => simp [unpairs, unfields, unpair]; omega
    | cons q qs =>
      have hrest := ih (by simp)
      have hcons : unpairs (p :: q :: qs) = unpair p ++ '&' :: unpairs (q :: qs) := by
        simp [unpairs, unfields, List.intercalate_cons_cons]
      rw [hcons, List.map_cons, List.sum_cons, ← hrest]
      simp only [List.length_append, List.length_cons, unpair]
      omega

/-- Pairs that are read of a query string were written there, decoded. -/
theorem pairs_eq_some {query : Text} {ps : List (Text × Text)} (h : pairs query = some ps) :
    ∃ raw : List (Text × Text), raw ≠ [] ∧ query = unpairs raw ∧
      (∀ p ∈ raw, '&' ∉ p.1 ∧ '&' ∉ p.2 ∧ '=' ∉ p.1 ∧ '=' ∉ p.2) ∧
      ps = raw.map fun p => (percentDecode p.1, percentDecode p.2) := by
  unfold pairs at h
  have hmap : ∀ (ws : List Text) (ps : List (Text × Text)), ws.mapM pair = some ps →
      (∀ w ∈ ws, '&' ∉ w) → ∃ raw : List (Text × Text), ws = raw.map unpair ∧
        (∀ p ∈ raw, '&' ∉ p.1 ∧ '&' ∉ p.2 ∧ '=' ∉ p.1 ∧ '=' ∉ p.2) ∧
        ps = raw.map fun p => (percentDecode p.1, percentDecode p.2) := by
    intro ws
    induction ws with
    | nil =>
      rintro ps ⟨⟩ -
      exact ⟨[], rfl, by simp, rfl⟩
    | cons w ws ih =>
      intro ps hps hsep
      rw [List.mapM_cons] at hps
      obtain ⟨p, hp, hps⟩ := Option.bind_eq_some_iff.mp hps
      obtain ⟨qs, hqs, hps⟩ := Option.bind_eq_some_iff.mp hps
      obtain ⟨r, hr, h₁, h₂, rfl⟩ := pair_eq_some hp
      obtain ⟨raw, hraw, hall, rfl⟩ := ih qs hqs fun v hv => hsep v (List.mem_cons_of_mem _ hv)
      have hamp := hsep w List.mem_cons_self
      rw [hr, unpair, List.mem_append, List.mem_cons, not_or, not_or] at hamp
      refine ⟨r :: raw, by rw [List.map_cons, hr, hraw], ?_, (Option.some.inj hps).symm⟩
      rintro p hp
      rcases List.mem_cons.mp hp with rfl | hp
      · exact ⟨hamp.1, hamp.2.2, h₁, h₂⟩
      · exact hall p hp
  obtain ⟨raw, hraw, hall, hps⟩ := hmap _ ps h fun w hw => not_mem_of_mem_fields hw
  refine ⟨raw, ?_, ?_, hall, hps⟩
  · rintro rfl
    exact fields_ne_nil '&' query hraw
  · rw [unpairs, ← hraw, unfields_fields]

/-- Plain pairs are read back. -/
theorem pairs_unpairs {ps : List (Text × Text)} (hne : ps ≠ [])
    (h : ∀ p ∈ ps, Plain p.1 ∧ Plain p.2) : pairs (unpairs ps) = some ps := by
  have hsep : ∀ w ∈ ps.map unpair, '&' ∉ w := by
    intro w hw
    obtain ⟨p, hp, rfl⟩ := List.mem_map.mp hw
    simp [unpair, (h p hp).1.1, (h p hp).2.1]
  have hpair : ∀ p ∈ ps, pair (unpair p) = some p := by
    intro p hp
    rw [pair_unpair (h p hp).1.2.1 (h p hp).2.2.1, (h p hp).1.2.2, (h p hp).2.2.2]
  rw [pairs, unpairs, fields_unfields (by simpa using hne) hsep]
  clear hne hsep h
  induction ps with
  | nil => rfl
  | cons p ps ih =>
    rw [List.map_cons, List.mapM_cons, hpair p List.mem_cons_self,
      ih fun q hq => hpair q (List.mem_cons_of_mem _ hq)]
    rfl

/-- Two sums that agree although no summand exceeds its partner agree in every summand. -/
theorem eq_of_sum_eq {α : Type} {f g : α → ℕ} {l : List α} (hle : ∀ a ∈ l, f a ≤ g a)
    (hsum : (l.map f).sum = (l.map g).sum) : ∀ a ∈ l, f a = g a := by
  induction l with
  | nil => simp
  | cons b l ih =>
    have hb := hle b List.mem_cons_self
    have hrest : (l.map f).sum ≤ (l.map g).sum :=
      List.sum_le_sum fun a ha => hle a (List.mem_cons_of_mem _ ha)
    simp only [List.map_cons, List.sum_cons] at hsum
    intro a ha
    rcases List.mem_cons.mp ha with rfl | ha
    · omega
    · exact ih (fun a ha => hle a (List.mem_cons_of_mem _ ha)) (by omega) a ha

/-- **Pairs that are written without encoding**, and cut after `n` characters, are read back
exactly when each text reads as itself and nothing was cut. -/
theorem pairs_take_unpairs_iff {ps : List (Text × Text)} (hne : ps ≠ []) (n : ℕ) :
    pairs ((unpairs ps).take n) = some ps ↔
      (∀ p ∈ ps, Plain p.1 ∧ Plain p.2) ∧ (unpairs ps).length ≤ n := by
  constructor
  · intro h
    obtain ⟨raw, hraw, hcut, hsep, hps⟩ := pairs_eq_some h
    -- decoding and cutting both only shorten, so neither happened
    have hlength := unpairs_length hne
    have hlength' := unpairs_length hraw
    have hle : ∀ p ∈ raw, (percentDecode p.1).length + (percentDecode p.2).length + 2 ≤
        p.1.length + p.2.length + 2 := fun p _ => by
      have h₁ := (percentDecode_length p.1).1
      have h₂ := (percentDecode_length p.2).1
      omega
    have hsum := List.sum_le_sum hle
    have hsum' : (ps.map fun p => p.1.length + p.2.length + 2).sum =
        (raw.map fun p => (percentDecode p.1).length + (percentDecode p.2).length + 2).sum := by
      rw [hps, List.map_map]
      rfl
    have htake : (unpairs raw).length = min n (unpairs ps).length := by
      rw [← hcut, List.length_take]
    have hsame := eq_of_sum_eq hle (by omega)
    have hdecoded : ∀ p ∈ raw, percentDecode p.1 = p.1 ∧ percentDecode p.2 = p.2 := by
      intro p hp
      have hp' := hsame p hp
      have h₁ := percentDecode_length p.1
      have h₂ := percentDecode_length p.2
      exact ⟨h₁.2 (by omega), h₂.2 (by omega)⟩
    have hraw' : ps = raw := by
      rw [hps]
      refine (List.map_congr_left fun p hp => ?_).trans (List.map_id raw)
      rw [(hdecoded p hp).1, (hdecoded p hp).2]
      rfl
    refine ⟨fun p hp => ?_, by omega⟩
    rw [hraw'] at hp
    obtain ⟨ha₁, ha₂, he₁, he₂⟩ := hsep p hp
    exact ⟨⟨ha₁, he₁, (hdecoded p hp).1⟩, ha₂, he₂, (hdecoded p hp).2⟩
  · rintro ⟨hplain, hlen⟩
    rw [List.take_of_length_le hlen]
    exact pairs_unpairs hne hplain

end Query
