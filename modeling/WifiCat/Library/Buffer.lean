import Mathlib.Tactic

/-!
# Buffers of a fixed size

A buffer has its bytes and a mark that is set when something was stored outside them; it
never changes its length.  A string in it ends before the first terminator.  `print` is
`snprintf`: it stores what fits, and always a terminator.  Texts printed one after another,
each where the string then ends, leave what fits of their concatenation (`holds_printAll`).
-/

set_option autoImplicit false

/-- A memory area, and whether something was stored outside it. -/
structure Buffer (α : Type) where
  bytes : List α
  outside : Bool := false
deriving DecidableEq, Repr

namespace Buffer

variable {α : Type}

/-- Store data from an offset on. -/
def write (b : Buffer α) (off : ℕ) (data : List α) : Buffer α :=
  if off + data.length ≤ b.bytes.length then
    { b with bytes := b.bytes.take off ++ data ++ b.bytes.drop (off + data.length) }
  else { b with outside := true }

theorem write_eq {b : Buffer α} {off : ℕ} {data : List α}
    (h : off + data.length ≤ b.bytes.length) :
    b.write off data =
      ⟨b.bytes.take off ++ data ++ b.bytes.drop (off + data.length), b.outside⟩ :=
  if_pos h

/-- A buffer keeps its length. -/
@[simp] theorem length_write (b : Buffer α) (off : ℕ) (data : List α) :
    (b.write off data).bytes.length = b.bytes.length := by
  unfold write
  split
  · simp only [List.length_append, List.length_take, List.length_drop]
    omega
  · rfl

/-- Something is stored outside when the data does not fit, and that is not forgotten. -/
theorem outside_write (b : Buffer α) (off : ℕ) (data : List α) :
    (b.write off data).outside = (b.outside || decide (b.bytes.length < off + data.length)) := by
  unfold write
  split
  · next h => simp [Nat.not_lt.mpr h]
  · next h => simp [Nat.lt_of_not_le h]

/-- What is stored after the data that is there already. -/
theorem write_append {pre base data : List α} {o : Bool}
    (h : pre.length + data.length ≤ base.length) :
    write ⟨pre ++ base.drop pre.length, o⟩ pre.length data =
      ⟨(pre ++ data) ++ base.drop (pre ++ data).length, o⟩ := by
  rw [write_eq (by simp only [List.length_append, List.length_drop]; omega)]
  simp only [List.take_left, List.drop_append, List.drop_drop, List.length_append,
    Nat.add_sub_cancel_left, List.drop_eq_nil_of_le (Nat.le_add_right _ _),
    List.nil_append]

/-- What fits of two texts, when what fits of the first is stored. -/
theorem take_take_append (n : ℕ) (t u : List α) :
    (t.take n ++ u).take n = (t ++ u).take n := by
  rw [List.take_append, List.take_append, List.take_take, Nat.min_self, List.length_take]
  congr 2
  omega

section Strings

variable (nul : α)

/-- `snprintf` of a text, from an offset on: what the size leaves beside the terminator. -/
def print (b : Buffer α) (off size : ℕ) (text : List α) : Buffer α :=
  if size = 0 then b else b.write off (text.take (size - 1) ++ [nul])

/-- The buffer holds a string, and nothing was stored outside. -/
structure Holds (size : ℕ) (t : List α) (b : Buffer α) : Prop where
  length : b.bytes.length = size
  inside : b.outside = false
  clean : nul ∉ t
  starts : ∃ rest, b.bytes = t ++ nul :: rest

variable {nul} {size : ℕ} {t : List α} {b : Buffer α}

theorem Holds.length_lt (h : Holds nul size t b) : t.length < size := by
  obtain ⟨rest, hrest⟩ := h.starts
  have hlen := h.length
  rw [hrest] at hlen
  simp only [List.length_append, List.length_cons] at hlen
  omega

/-- INTERNAL: a text is printed behind what was before, as much of it as there is room for. -/
theorem holds_print {pre text : List α} {room : ℕ} (hinside : b.outside = false)
    (hpre : ∃ rest, b.bytes = pre ++ rest) (hclean : nul ∉ pre) (htext : nul ∉ text)
    (hroom : 0 < room) (hfits : pre.length + room ≤ b.bytes.length) :
    Holds nul b.bytes.length (pre ++ text.take (room - 1)) (b.print nul pre.length room text) := by
  obtain ⟨rest, hrest⟩ := hpre
  set data := text.take (room - 1) with hdata
  have hdatalen : data.length ≤ room - 1 := List.length_take_le _ _
  have hprint : b.print nul pre.length room text = b.write pre.length (data ++ [nul]) :=
    if_neg (by omega)
  have hwrite : pre.length + (data ++ [nul]).length ≤ b.bytes.length := by
    simp only [List.length_append, List.length_singleton]
    omega
  rw [hprint]
  refine ⟨length_write _ _ _, by rw [write_eq hwrite, hinside], ?_, ?_⟩
  · rw [List.mem_append]
    rintro (h | h)
    · exact hclean h
    · exact htext (List.mem_of_mem_take h)
  · refine ⟨b.bytes.drop (pre.length + (data ++ [nul]).length), ?_⟩
    rw [write_eq hwrite]
    simp only [hrest, List.take_left, List.append_assoc, List.singleton_append]

variable [DecidableEq α]

/-- The string in a memory area that has a terminator. -/
theorem takeWhile_ne_append (h : nul ∉ t) (rest : List α) :
    (t ++ nul :: rest).takeWhile (· ≠ nul) = t := by
  have hkept : ∀ c ∈ t, decide (c ≠ nul) = true := by
    intro c hc
    exact decide_eq_true fun heq => h (heq ▸ hc)
  rw [List.takeWhile_append_of_pos hkept, List.takeWhile_cons_of_neg (by simp), List.append_nil]

variable (nul)

/-- The string in the buffer. -/
def string (b : Buffer α) : List α := b.bytes.takeWhile (· ≠ nul)

/-- `strlen` of the buffer. -/
def strlen (b : Buffer α) : ℕ := (b.string nul).length

/-- Print at the place that was measured last, and measure again. -/
def printNext (s : Buffer α × ℕ) (text : List α) : Buffer α × ℕ :=
  let b := s.1.print nul s.2 (s.1.bytes.length - s.2) text
  (b, b.strlen nul)

/-- Print texts one after another. -/
def printAll (s : Buffer α × ℕ) (texts : List (List α)) : Buffer α × ℕ :=
  texts.foldl (printNext nul) s

variable {nul}

theorem Holds.string_eq (h : Holds nul size t b) : b.string nul = t := by
  obtain ⟨rest, hrest⟩ := h.starts
  rw [string, hrest, takeWhile_ne_append h.clean]

theorem Holds.strlen_eq (h : Holds nul size t b) : b.strlen nul = t.length := by
  rw [strlen, h.string_eq]

/-- INTERNAL: the string after a print behind what was before, and its measure. -/
theorem holds_printNext {pre text : List α} (hlen : b.bytes.length = size)
    (hinside : b.outside = false) (hpre : ∃ rest, b.bytes = pre ++ rest)
    (hclean : nul ∉ pre) (htext : nul ∉ text) (hlt : pre.length < size) :
    Holds nul size ((pre ++ text).take (size - 1)) (printNext nul (b, pre.length) text).1 ∧
      (printNext nul (b, pre.length) text).2 = ((pre ++ text).take (size - 1)).length := by
  have hholds : Holds nul size ((pre ++ text).take (size - 1))
      (printNext nul (b, pre.length) text).1 := by
    have hprint := holds_print hinside hpre hclean htext (Nat.sub_pos_of_lt hlt) (by omega)
    rw [hlen] at hprint
    rw [printNext, hlen, List.take_append, List.take_of_length_le (by omega), Nat.sub_right_comm]
    exact hprint
  exact ⟨hholds, hholds.strlen_eq⟩

/-- INTERNAL: **texts printed one after another**, behind what was before: the buffer holds
what fits of them all. -/
theorem holds_printAll {pre text : List α} {texts : List (List α)} (hlen : b.bytes.length = size)
    (hinside : b.outside = false) (hpre : ∃ rest, b.bytes = pre ++ rest) (hclean : nul ∉ pre)
    (htexts : ∀ u ∈ text :: texts, nul ∉ u) (hlt : pre.length < size) :
    Holds nul size ((pre ++ (text :: texts).flatten).take (size - 1))
      (printAll nul (b, pre.length) (text :: texts)).1 := by
  induction texts generalizing pre text b with
  | nil =>
    rw [List.flatten_singleton]
    exact (holds_printNext hlen hinside hpre hclean (htexts text (by simp)) hlt).1
  | cons next texts ih =>
    obtain ⟨hholds, hat⟩ := holds_printNext hlen hinside hpre hclean (htexts text (by simp)) hlt
    obtain ⟨rest, hrest⟩ := hholds.starts
    have hnext := ih hholds.length hholds.inside ⟨_, hrest⟩ hholds.clean
      (fun u hu => htexts u (List.mem_cons_of_mem _ hu)) hholds.length_lt
    rw [← hat] at hnext
    rw [take_take_append, List.append_assoc] at hnext
    exact hnext

end Strings

end Buffer
