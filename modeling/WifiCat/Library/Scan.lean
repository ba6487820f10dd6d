import Mathlib.Data.List.Basic
import Mathlib.Data.List.TakeWhile
import Mathlib.Data.BitVec
import Mathlib.Tactic

/-!
# Scanning texts, and numerals in base sixteen

Texts are lists of characters.  A scanner takes a text and answers what it read and
what is left, or `none`; these are the directives of C's `sscanf` that the programs
under verification use: a bounded set (`set`), a literal character (`lit`) and an
unsigned decimal number (`unsigned`).

`hexDigits` is what `%x` prints and `hexValue` what a reader of `0x…` understands;
`hexValue_hexDigits_append` says what two numerals written one after the other denote.
-/

set_option autoImplicit false

namespace Scan

/-- A text without its terminating NUL. -/
abbrev Text := List Char

/-- What holds of every character of a text is decided along the text, not over all
characters. -/
instance (priority := 2000) (s : Text) (p : Char → Prop) [DecidablePred p] :
    Decidable (∀ c ∈ s, p c) := List.decidableBAll p s

/-! ## Character classes -/

/-- C's `isspace`. -/
def isSpace (c : Char) : Bool :=
  c == ' ' || c == '\t' || c == '\n' || c == '\x0b' || c == '\x0c' || c == '\r'

/-- A character that ends a line. -/
def isBreak (c : Char) : Bool := c == '\r' || c == '\n'

/-- A hexadecimal digit, `[A-Fa-f0-9]`. -/
def isHexDigit (c : Char) : Bool :=
  ('0' ≤ c && c ≤ '9') || ('a' ≤ c && c ≤ 'f') || ('A' ≤ c && c ≤ 'F')

/-- Equality up to the case of ASCII letters: `strcasecmp(s, t) == 0`. -/
def sameCase (s t : Text) : Bool := s.map Char.toLower == t.map Char.toLower

theorem sameCase_iff (s t : Text) :
    sameCase s t = true ↔ s.map Char.toLower = t.map Char.toLower := by
  simp [sameCase]

/-- Cut a text at every separator; a text without one is a single field. -/
def fields (sep : Char) : Text → List Text
  | [] => [[]]
  | c :: s =>
    if c = sep then [] :: fields sep s
    else
      match fields sep s with
      | [] => [[c]]
      | w :: ws => (c :: w) :: ws

/-- Glue fields together with a separator between them. -/
def unfields (sep : Char) (ws : List Text) : Text := [sep].intercalate ws

theorem fields_ne_nil (sep : Char) (s : Text) : fields sep s ≠ [] := by
  cases s with
  | nil => simp [fields]
  | cons c s =>
    simp only [fields]
    split
    · simp
    · split <;> simp

theorem fields_cons_sep (sep : Char) (s : Text) : fields sep (sep :: s) = [] :: fields sep s := by
  simp [fields]

theorem fields_cons_of_ne {sep c : Char} (h : c ≠ sep) {s w : Text} {ws : List Text}
    (hs : fields sep s = w :: ws) : fields sep (c :: s) = (c :: w) :: ws := by
  simp [fields, h, hs]

/-- Gluing the fields of a text together gives the text back. -/
theorem unfields_fields (sep : Char) (s : Text) : unfields sep (fields sep s) = s := by
  unfold unfields
  induction s with
  | nil => rfl
  | cons c s ih =>
    obtain ⟨w, ws, hs⟩ := List.exists_cons_of_ne_nil (fields_ne_nil sep s)
    rw [hs] at ih
    by_cases hc : c = sep
    · rw [hc, fields_cons_sep, hs, List.intercalate_cons_cons, ih]
      rfl
    · rw [fields_cons_of_ne hc hs]
      cases ws with
      | nil =>
        simp only [List.intercalate_singleton] at ih ⊢
        rw [ih]
      | cons v vs =>
        simp only [List.intercalate_cons_cons] at ih ⊢
        rw [← ih]
        simp

/-- A text without a separator is its only field. -/
theorem fields_of_not_mem {sep : Char} {s : Text} (h : sep ∉ s) : fields sep s = [s] := by
  induction s with
  | nil => rfl
  | cons c s ih =>
    simp only [List.mem_cons, not_or] at h
    exact fields_cons_of_ne (Ne.symm h.1) (ih h.2)

/-- The first field of a text ends at the first separator. -/
theorem fields_append_sep {sep : Char} {w : Text} (h : sep ∉ w) (s : Text) :
    fields sep (w ++ sep :: s) = w :: fields sep s := by
  induction w with
  | nil => exact fields_cons_sep sep s
  | cons c w ih =>
    simp only [List.mem_cons, not_or] at h
    exact fields_cons_of_ne (Ne.symm h.1) (ih h.2)

/-- The fields of two texts with a separator between them. -/
theorem fields_append (sep : Char) (s t : Text) :
    fields sep (s ++ sep :: t) = fields sep s ++ fields sep t := by
  induction s with
  | nil => exact fields_cons_sep sep t
  | cons c s ih =>
    by_cases hc : c = sep
    · rw [List.cons_append, hc, fields_cons_sep, fields_cons_sep, ih, List.cons_append]
    · obtain ⟨w, ws, hs⟩ := List.exists_cons_of_ne_nil (fields_ne_nil sep s)
      rw [hs, List.cons_append] at ih
      rw [List.cons_append, fields_cons_of_ne hc ih, fields_cons_of_ne hc hs, List.cons_append]

/-- No field holds a separator. -/
theorem not_mem_of_mem_fields {sep : Char} {s w : Text} (h : w ∈ fields sep s) : sep ∉ w := by
  induction s generalizing w with
  | nil => simp_all [fields]
  | cons c s ih =>
    obtain ⟨v, vs, hs⟩ := List.exists_cons_of_ne_nil (fields_ne_nil sep s)
    by_cases hc : c = sep
    · rw [hc, fields_cons_sep] at h
      rcases List.mem_cons.mp h with rfl | h
      · exact List.not_mem_nil
      · exact ih h
    · rw [fields_cons_of_ne hc hs] at h
      rw [hs] at ih
      rcases List.mem_cons.mp h with rfl | h
      · have hv : sep ∉ v := ih List.mem_cons_self
        simp [Ne.symm hc, hv]
      · exact ih (List.mem_cons_of_mem _ h)

/-- The fields of texts glued together are these texts. -/
theorem fields_unfields {sep : Char} {ws : List Text} (hne : ws ≠ []) (h : ∀ w ∈ ws, sep ∉ w) :
    fields sep (unfields sep ws) = ws := by
  induction ws with
  | nil => exact absurd rfl hne
  | cons w ws ih =>
    cases ws with
    | nil =>
      rw [unfields, List.intercalate_singleton]
      exact fields_of_not_mem (h w List.mem_cons_self)
    | cons v vs =>
      have hrest := ih (by simp) fun u hu => h u (List.mem_cons_of_mem _ hu)
      have hcons : unfields sep (w :: v :: vs) = w ++ sep :: unfields sep (v :: vs) := by
        simp [unfields, List.intercalate_cons_cons]
      rw [hcons, fields_append_sep (h w List.mem_cons_self), hrest]

/-- A change of characters that keeps the separator changes every field. -/
theorem fields_map {f : Char → Char} {sep : Char} (hf : ∀ c, f c = sep ↔ c = sep) (s : Text) :
    fields sep (s.map f) = (fields sep s).map (List.map f) := by
  induction s with
  | nil => rfl
  | cons c s ih =>
    obtain ⟨w, ws, hs⟩ := List.exists_cons_of_ne_nil (fields_ne_nil sep s)
    rw [hs] at ih
    by_cases hc : c = sep
    · rw [List.map_cons, (hf c).mpr hc, hc, fields_cons_sep, fields_cons_sep, ih, hs]
      rfl
    · rw [List.map_cons, fields_cons_of_ne (fun h => hc ((hf c).mp h)) ih,
        fields_cons_of_ne hc hs]
      rfl

/-- A text is as long as its fields and the separators between them. -/
theorem length_add_one_eq (sep : Char) (s : Text) :
    s.length + 1 = ((fields sep s).map List.length).sum + (fields sep s).length := by
  induction s with
  | nil => rfl
  | cons c s ih =>
    obtain ⟨w, ws, hs⟩ := List.exists_cons_of_ne_nil (fields_ne_nil sep s)
    rw [hs] at ih
    by_cases hc : c = sep
    · rw [hc, fields_cons_sep, hs]
      simp only [List.map_cons, List.sum_cons, List.length_cons, List.length_nil] at ih ⊢
      omega
    · rw [fields_cons_of_ne hc hs]
      simp only [List.map_cons, List.sum_cons, List.length_cons] at ih ⊢
      omega

/-- A text has one field more than it has separators. -/
theorem fields_length (sep : Char) (s : Text) : (fields sep s).length = s.count sep + 1 := by
  induction s with
  | nil => rfl
  | cons c s ih =>
    obtain ⟨w, ws, hs⟩ := List.exists_cons_of_ne_nil (fields_ne_nil sep s)
    by_cases hc : c = sep
    · rw [hc, fields_cons_sep, List.length_cons, ih, List.count_cons_self]
    · rw [fields_cons_of_ne hc hs, List.count_cons_of_ne hc, ← ih, hs]
      rfl

/-- A character of a text is a separator or a character of one of its fields. -/
theorem mem_fields {sep c : Char} {s : Text} (h : c ∈ s) (hne : c ≠ sep) :
    ∃ w ∈ fields sep s, c ∈ w := by
  induction s with
  | nil => cases h
  | cons d s ih =>
    obtain ⟨w, ws, hs⟩ := List.exists_cons_of_ne_nil (fields_ne_nil sep s)
    rw [hs] at ih
    by_cases hd : d = sep
    · rw [hd, fields_cons_sep, hs]
      obtain ⟨v, hv, hcv⟩ := ih ((List.mem_cons.mp h).resolve_left fun hcd => hne (hcd.trans hd))
      exact ⟨v, List.mem_cons_of_mem _ hv, hcv⟩
    · rw [fields_cons_of_ne hd hs]
      rcases List.mem_cons.mp h with rfl | hc
      · exact ⟨c :: w, by simp, by simp⟩
      · obtain ⟨v, hv, hcv⟩ := ih hc
        rcases List.mem_cons.mp hv with rfl | hv
        · exact ⟨d :: v, by simp, List.mem_cons_of_mem _ hcv⟩
        · exact ⟨v, List.mem_cons_of_mem _ hv, hcv⟩

/-- Lower case keeps every character before the letters, and makes no other character one. -/
theorem toLower_eq_iff {d : Char} (hd : d.val.toNat < 65) (c : Char) : c.toLower = d ↔ c = d := by
  unfold Char.toLower
  split
  · next h =>
    have h1 : 65 ≤ c.val.toNat := h.1
    have h2 : c.val.toNat ≤ 90 := h.2
    constructor
    · intro he
      have hv : (c.val + 32).toNat = d.val.toNat := congrArg (fun d : Char => d.val.toNat) he
      rw [UInt32.toNat_add] at hv
      have h32 : (32 : UInt32).toNat = 32 := rfl
      omega
    · rintro rfl
      omega
  · rfl

theorem toLower_eq_colon (c : Char) : c.toLower = ':' ↔ c = ':' := toLower_eq_iff (by decide) c

/-! ## Directives -/

/-- `%n[…]`: the longest prefix of at most `n` characters of the set, if not empty. -/
def set (n : ℕ) (p : Char → Bool) (s : Text) : Option (Text × Text) :=
  let w := (s.take n).takeWhile p
  if w = [] then none else some (w, s.drop w.length)

/-- A literal character of the format. -/
def lit (c : Char) : Text → Option Text
  | [] => none
  | d :: s => if d = c then some s else none

/-- The sign a number may start with: whether it is a minus, and what follows. -/
def sign : Text → Bool × Text
  | '+' :: s => (false, s)
  | '-' :: s => (true, s)
  | s => (false, s)

/-- `%u`: white space, an optional sign and decimal digits.  The value is the one
`strtoul` computes in 64 bits (it saturates, and a minus negates) stored into 32 bits. -/
def unsigned (s : Text) : Option (BitVec 32 × Text) :=
  let (minus, t) := sign (s.dropWhile isSpace)
  let ds := t.takeWhile Char.isDigit
  if ds = [] then none
  else
    let v := Nat.ofDigitChars 10 ds 0
    let r := if 2 ^ 64 ≤ v then 2 ^ 64 - 1 else if minus then (2 ^ 64 - v) % 2 ^ 64 else v
    some (BitVec.ofNat 32 r, t.dropWhile Char.isDigit)

/-- What a bounded set reads: between one and `n` characters, all in the set, and what
is left is the rest of the text. -/
theorem set_eq_some {n : ℕ} {p : Char → Bool} {s w t : Text} (h : set n p s = some (w, t)) :
    s = w ++ t ∧ w ≠ [] ∧ w.length ≤ n ∧ ∀ c ∈ w, p c = true := by
  unfold set at h
  dsimp only at h
  split at h
  · cases h
  · next hne =>
    simp only [Option.some.injEq, Prod.mk.injEq] at h
    obtain ⟨hw, ht⟩ := h
    subst hw
    have hpre : (s.take n).takeWhile p <+: s :=
      (List.takeWhile_prefix p).trans (List.take_prefix n s)
    refine ⟨?_, hne, ?_, fun c hc => List.mem_takeWhile_imp hc⟩
    · rw [← ht]
      generalize (s.take n).takeWhile p = w at hpre
      obtain ⟨r, rfl⟩ := hpre
      rw [List.drop_left]
    · have h1 := (List.takeWhile_prefix p (l := s.take n)).length_le
      have h2 : (s.take n).length ≤ n := by simp
      omega

/-- A text of the set no longer than the bound, followed by a character outside the
set, is read whole. -/
theorem set_append {n : ℕ} {p : Char → Bool} {w t : Text} (hne : w ≠ [])
    (hlen : w.length ≤ n) (hw : ∀ c ∈ w, p c = true)
    (ht : w.length = n ∨ ∀ c s, t = c :: s → p c = false) :
    set n p (w ++ t) = some (w, t) := by
  have hall : w.takeWhile p = w := List.takeWhile_eq_self_iff.mpr hw
  have hread : ((w ++ t).take n).takeWhile p = w := by
    rw [List.take_append, List.take_of_length_le hlen, List.takeWhile_append, hall, if_pos rfl]
    rcases ht with hn | hstop
    · simp [hn]
    · cases t with
      | nil => simp
      | cons c s =>
        cases n - w.length with
        | zero => simp
        | succ k => simp [hstop c s rfl]
  unfold set
  simp [hread, hne]

@[simp] theorem lit_cons (c : Char) (s : Text) : lit c (c :: s) = some s := by simp [lit]

/-! ## Numerals in base sixteen -/

/-- The digits `%x` prints. -/
def hexDigits (n : ℕ) : Text := Nat.toDigits 16 n

/-- The value of one hexadecimal digit. -/
def hexDigitValue (c : Char) : ℕ :=
  if '0' ≤ c ∧ c ≤ '9' then c.toNat - '0'.toNat
  else if 'a' ≤ c ∧ c ≤ 'f' then c.toNat - 'a'.toNat + 10
  else if 'A' ≤ c ∧ c ≤ 'F' then c.toNat - 'A'.toNat + 10
  else 0

/-- The number a hexadecimal numeral denotes. -/
def hexValue (ds : Text) : ℕ := ds.foldl (fun v d => 16 * v + hexDigitValue d) 0

theorem hexDigitValue_digitChar {d : ℕ} (h : d < 16) :
    hexDigitValue (Nat.digitChar d) = d := by
  interval_cases d <;> rfl

private theorem foldl_hex (ds : Text) (v : ℕ) :
    ds.foldl (fun v d => 16 * v + hexDigitValue d) v = v * 16 ^ ds.length + hexValue ds := by
  induction ds generalizing v with
  | nil => simp [hexValue]
  | cons d ds ih =>
    simp only [List.foldl_cons, hexValue, List.length_cons]
    rw [ih, ih (16 * 0 + hexDigitValue d)]
    ring

/-- Two numerals written one after the other: the first is shifted by the length of the
second. -/
theorem hexValue_append (ds es : Text) :
    hexValue (ds ++ es) = hexValue ds * 16 ^ es.length + hexValue es := by
  unfold hexValue
  rw [List.foldl_append]
  exact foldl_hex es _

/-- Reading what `%x` printed gives the number back. -/
@[simp] theorem hexValue_hexDigits (n : ℕ) : hexValue (hexDigits n) = n := by
  induction n using Nat.strong_induction_on with
  | _ n ih =>
    unfold hexDigits
    rw [Nat.toDigits_eq_if (by decide)]
    split
    · next hlt => simpa [hexValue] using hexDigitValue_digitChar hlt
    · next hge =>
      rw [hexValue_append]
      have hrec : hexValue (Nat.toDigits 16 (n / 16)) = n / 16 := ih (n / 16) (by omega)
      have hlast : hexValue [Nat.digitChar (n % 16)] = n % 16 := by
        simpa [hexValue] using hexDigitValue_digitChar (Nat.mod_lt n (by decide))
      rw [hrec, hlast]
      simp only [List.length_singleton, pow_one]
      omega

/-- The number of hexadecimal digits of `n`. -/
def hexLength (n : ℕ) : ℕ := (hexDigits n).length

theorem lt_pow_hexLength (n : ℕ) : n < 16 ^ hexLength n :=
  (Nat.length_toDigits_le_iff (by decide) Nat.length_toDigits_pos).mp le_rfl

/-- **Two numbers printed one after the other** by `%x%x`. -/
theorem hexValue_hexDigits_append (a b : ℕ) :
    hexValue (hexDigits a ++ hexDigits b) = a * 16 ^ hexLength b + b := by
  rw [hexValue_append, hexValue_hexDigits, hexValue_hexDigits]
  rfl

end Scan
