import WifiCat.Library.Scan

/-!
# Formatted input from a stream

`fscanf` reads its directives one after the other and stops at the first one that fails;
the stream then stands where that directive left it.  A `Directive` therefore answers the
rest of the stream in both cases.

`printColumns` is a line of a table as programs print it, each column padded to the left
and followed by a blank; `word_column` says that reading a word reads the next column.
-/

set_option autoImplicit false

namespace Scan

/-- A directive: what it reads, or where it leaves the stream when it fails. -/
abbrev Directive (α : Type) := StateT Text (Except Text) α

/-- `%s`: a word, after white space. -/
def Directive.word : Directive Text := fun s =>
  match s.dropWhile isSpace with
  | [] => .error []
  | t => .ok (t.takeWhile fun c => !isSpace c, t.dropWhile fun c => !isSpace c)

/-- `%*s`. -/
def Directive.skipWord : Directive Unit := do
  let _ ← word

/-- `%*s`, a number of times. -/
def Directive.skipWords : ℕ → Directive Unit
  | 0 => pure ()
  | n + 1 => do
    skipWord
    skipWords n

/-- `%llu`: white space, an optional sign and decimal digits.  The value is the one
`strtoull` computes: it saturates, and a minus negates. -/
def Directive.unsigned64 : Directive (BitVec 64) := fun s =>
  let (minus, t) := sign (s.dropWhile isSpace)
  let ds := t.takeWhile Char.isDigit
  if ds = [] then .error t
  else
    let v := Nat.ofDigitChars 10 ds 0
    let r := if 2 ^ 64 ≤ v then 2 ^ 64 - 1 else if minus then 2 ^ 64 - v else v
    .ok (BitVec.ofNat 64 r, t.dropWhile Char.isDigit)

/-- White space in the format. -/
def Directive.blanks : Directive Unit := fun s => .ok ((), s.dropWhile isSpace)

/-- `%n[…]`. -/
def Directive.bounded (n : ℕ) (p : Char → Bool) : Directive Text := fun s =>
  match set n p s with
  | none => .error s
  | some read => .ok read

/-- What is left of the stream behind the line it stands in. -/
def restOfLine (s : Text) : Text := (s.dropWhile (· != '\n')).drop 1

@[simp] theorem restOfLine_append {line : Text} (h : '\n' ∉ line) (s : Text) :
    restOfLine (line ++ '\n' :: s) = s := by
  have hline : ∀ c ∈ line, (c != '\n') = true := by
    intro c hc
    simpa using fun he : c = '\n' => h (he ▸ hc)
  rw [restOfLine, List.dropWhile_append_of_pos hline]
  simp

/-- A sequence of directives whose first one succeeds. -/
theorem Directive.bind_ok {α β : Type} {d : Directive α} {f : α → Directive β} {a : α}
    {s t : Text} (h : d s = .ok (a, t)) : (d >>= f) s = f a t := by
  simp only [bind, StateT.bind, h, Except.bind]

/-! ## Columns -/

/-- A word: not empty, and without white space. -/
def IsWord (w : Text) : Prop := w ≠ [] ∧ ∀ c ∈ w, isSpace c = false

instance (w : Text) : Decidable (IsWord w) := inferInstanceAs (Decidable (_ ∧ _))

/-- Columns of a line, each with the number of blanks it is padded with. -/
def printColumns : List (ℕ × Text) → Text
  | [] => []
  | (pad, w) :: columns => List.replicate pad ' ' ++ w ++ ' ' :: printColumns columns

theorem dropWhile_isSpace_pad (pad : ℕ) {w : Text} (hw : IsWord w) (s : Text) :
    (List.replicate pad ' ' ++ w ++ s).dropWhile isSpace = w ++ s := by
  obtain ⟨c, w, rfl⟩ := List.exists_cons_of_ne_nil hw.1
  rw [List.append_assoc, List.dropWhile_append_of_pos]
  · simp [hw.2 c (by simp)]
  · intro d hd
    rw [List.eq_of_mem_replicate hd]
    rfl

/-- Reading a word reads the next column. -/
theorem word_column (pad : ℕ) {w : Text} (hw : IsWord w) (s : Text) :
    Directive.word (List.replicate pad ' ' ++ w ++ ' ' :: s) = .ok (w, ' ' :: s) := by
  have hall : ∀ c ∈ w, (!isSpace c) = true := by
    intro c hc
    rw [hw.2 c hc]
    rfl
  unfold Directive.word
  rw [dropWhile_isSpace_pad pad hw]
  obtain ⟨c, w', rfl⟩ := List.exists_cons_of_ne_nil hw.1
  simp only [List.cons_append]
  rw [← List.cons_append, List.takeWhile_append_of_pos hall, List.dropWhile_append_of_pos hall]
  simp [isSpace]

theorem isWord_toDigits (n : ℕ) : IsWord (Nat.toDigits 10 n) := by
  refine ⟨Nat.toDigits_ne_nil, fun c hc => ?_⟩
  have hdigit := Nat.isDigit_of_mem_toDigits (by decide) (by decide) hc
  unfold isSpace
  have hne : ∀ d : Char, d.isDigit = false → c ≠ d := by
    rintro d hd rfl
    rw [hdigit] at hd
    cases hd
  simp [hne ' ' (by decide), hne '\t' (by decide), hne '\n' (by decide), hne '\x0b' (by decide),
    hne '\x0c' (by decide), hne '\r' (by decide)]

/-- A numeral has no sign. -/
theorem sign_toDigits (n : ℕ) (s : Text) :
    sign (Nat.toDigits 10 n ++ s) = (false, Nat.toDigits 10 n ++ s) := by
  obtain ⟨c, ds, hds⟩ := List.exists_cons_of_ne_nil (Nat.toDigits_ne_nil (n := n) (b := 10))
  have hdigit : c.isDigit = true :=
    Nat.isDigit_of_mem_toDigits (b := 10) (n := n) (by decide) (by decide) (by simp [hds])
  rw [hds, List.cons_append]
  unfold sign
  split
  · next heq =>
    rw [(List.cons.inj heq).1] at hdigit
    exact absurd hdigit (by decide)
  · next heq =>
    rw [(List.cons.inj heq).1] at hdigit
    exact absurd hdigit (by decide)
  · rfl

/-- Reading a number reads the next column, when a number was printed there. -/
theorem unsigned64_column (pad : ℕ) (n : BitVec 64) (s : Text) :
    Directive.unsigned64 (List.replicate pad ' ' ++ Nat.toDigits 10 n.toNat ++ ' ' :: s) =
      .ok (n, ' ' :: s) := by
  have hall : ∀ c ∈ Nat.toDigits 10 n.toNat, c.isDigit = true :=
    fun c hc => Nat.isDigit_of_mem_toDigits (by decide) (by decide) hc
  have htake : (Nat.toDigits 10 n.toNat ++ ' ' :: s).takeWhile Char.isDigit =
      Nat.toDigits 10 n.toNat := by
    rw [List.takeWhile_append_of_pos hall]
    simp
  have hdrop : (Nat.toDigits 10 n.toNat ++ ' ' :: s).dropWhile Char.isDigit = ' ' :: s := by
    rw [List.dropWhile_append_of_pos hall]
    simp
  have hlt : ¬2 ^ 64 ≤ n.toNat := not_le.mpr n.isLt
  unfold Directive.unsigned64
  rw [dropWhile_isSpace_pad pad (isWord_toDigits _), sign_toDigits]
  simp only [htake, hdrop, if_neg Nat.toDigits_ne_nil, Nat.ofDigitChars_ten_toDigits, if_neg hlt,
    Bool.false_eq_true, if_false, BitVec.ofNat_toNat, BitVec.setWidth_eq]

/-- A bounded set that a blank is not in reads no further than its column. -/
theorem set_column {n : ℕ} {p : Char → Bool} (hp : p ' ' = false) (w s : Text) :
    set n p (w ++ ' ' :: s) = (set n p w).map fun read => (read.1, read.2 ++ ' ' :: s) := by
  have hread : ((w ++ ' ' :: s).take n).takeWhile p = (w.take n).takeWhile p := by
    rw [List.take_append, List.takeWhile_append]
    split
    · next hall =>
      rw [(List.takeWhile_prefix p).eq_of_length hall]
      cases n - w.length <;> simp [hp]
    · rfl
  have hlen : ((w.take n).takeWhile p).length ≤ w.length :=
    ((List.takeWhile_prefix p).trans (List.take_prefix n w)).length_le
  unfold set
  simp only [hread]
  split
  · rfl
  · simp [List.drop_append_of_le_length hlen]

theorem printColumns_append (columns columns' : List (ℕ × Text)) :
    printColumns (columns ++ columns') = printColumns columns ++ printColumns columns' := by
  induction columns with
  | nil => rfl
  | cons c columns ih => simp [printColumns, ih]

theorem newline_not_mem_printColumns {columns : List (ℕ × Text)}
    (h : ∀ c ∈ columns, IsWord c.2) : '\n' ∉ printColumns columns := by
  induction columns with
  | nil => simp [printColumns]
  | cons c columns ih =>
    have hword : '\n' ∉ c.2 := fun hmem => by simpa [isSpace] using (h c (by simp)).2 _ hmem
    have hrest := ih fun d hd => h d (List.mem_cons_of_mem _ hd)
    simp [printColumns, hword, hrest]

end Scan
