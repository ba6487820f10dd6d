import WifiCat.Library.Scan

/-!
# Lines and words

The lines of a text, the pieces that a reader with a bounded buffer makes of them, and the
words of a line.  `pieces_eq_lines` says that the reader sees the lines when each of them
fits its buffer.
-/

set_option autoImplicit false

namespace TextLines

open Scan

/-! ## Lines -/

/-- The lines of a text, each with its newline; the last one may have none. -/
def lines : Text → List Text
  | [] => []
  | c :: s =>
    if c = '\n' then [c] :: lines s
    else
      match lines s with
      | [] => [[c]]
      | l :: ls => (c :: l) :: ls

/-- What is read when a line that has room for `room` more characters is continued. -/
def piecesFrom (size : ℕ) : ℕ → Text → List Text
  | _, [] => []
  | room, c :: s =>
    if c = '\n' ∨ room ≤ 1 then [c] :: piecesFrom size (size - 1) s
    else
      match piecesFrom size (room - 1) s with
      | [] => [[c]]
      | p :: ps => (c :: p) :: ps

/-- The texts that calls of `fgets` with a buffer of `size` bytes read one after the other. -/
def pieces (size : ℕ) (s : Text) : List Text := piecesFrom size (size - 1) s

/-- A line with its newline. -/
def Complete (l : Text) : Prop := ∃ w, l = w ++ ['\n'] ∧ '\n' ∉ w

instance (l : Text) : Decidable (Complete l) :=
  decidable_of_iff (l.getLast? = some '\n' ∧ '\n' ∉ l.dropLast) <| by
    constructor
    · rintro ⟨hlast, hnot⟩
      obtain ⟨w, rfl⟩ := List.getLast?_eq_some_iff.mp hlast
      exact ⟨w, rfl, by rwa [List.dropLast_concat] at hnot⟩
    · rintro ⟨w, rfl, hnot⟩
      exact ⟨List.getLast?_concat, by rwa [List.dropLast_concat]⟩

theorem lines_newline (s : Text) : lines ('\n' :: s) = ['\n'] :: lines s := by simp [lines]

theorem lines_cons_of_ne {c : Char} (h : c ≠ '\n') {s l : Text} {ls : List Text}
    (hs : lines s = l :: ls) : lines (c :: s) = (c :: l) :: ls := by simp [lines, h, hs]

theorem lines_ne_nil {s : Text} (h : s ≠ []) : lines s ≠ [] := by
  cases s with
  | nil => exact absurd rfl h
  | cons c s =>
    unfold lines
    split
    · exact List.cons_ne_nil _ _
    · split <;> exact List.cons_ne_nil _ _

/-- The lines put together give the text. -/
theorem flatten_lines (s : Text) : (lines s).flatten = s := by
  induction s with
  | nil => rfl
  | cons c s ih =>
    by_cases hc : c = '\n'
    · rw [hc, lines_newline, List.flatten_cons, ih]
      rfl
    · cases hs : lines s with
      | nil =>
        rw [hs] at ih
        obtain rfl : s = [] := ih.symm
        simp [lines, hc]
      | cons l ls =>
        rw [hs] at ih
        rw [lines_cons_of_ne hc hs, ← ih]
        rfl

/-- A line with its newline is the first line of a text that starts with it. -/
theorem lines_append {l : Text} (h : Complete l) (s : Text) : lines (l ++ s) = l :: lines s := by
  obtain ⟨w, rfl, hw⟩ := h
  induction w with
  | nil => exact lines_newline s
  | cons c w ih =>
    rw [List.mem_cons, not_or] at hw
    exact lines_cons_of_ne (Ne.symm hw.1) (ih hw.2)

/-- Lines with their newlines are the lines of the text they make. -/
theorem lines_flatten {ls : List Text} (h : ∀ l ∈ ls, Complete l) : lines ls.flatten = ls := by
  induction ls with
  | nil => rfl
  | cons l ls ih =>
    rw [List.flatten_cons, lines_append (h l List.mem_cons_self),
      ih fun k hk => h k (List.mem_cons_of_mem _ hk)]

/-- Every line but the last has its newline, and no line goes on behind it. -/
theorem lines_newline_last {s l : Text} (h : l ∈ lines s) :
    l ≠ [] ∧ (Complete l ∨ '\n' ∉ l) := by
  induction s generalizing l with
  | nil => cases h
  | cons c s ih =>
    by_cases hc : c = '\n'
    · rw [hc, lines_newline] at h
      rcases List.mem_cons.mp h with rfl | h
      · exact ⟨List.cons_ne_nil _ _, Or.inl ⟨[], rfl, List.not_mem_nil⟩⟩
      · exact ih h
    · cases hs : lines s with
      | nil =>
        have h' : lines (c :: s) = [[c]] := by simp [lines, hc, hs]
        rw [h'] at h
        obtain rfl := List.mem_singleton.mp h
        exact ⟨List.cons_ne_nil _ _, Or.inr (by simpa using Ne.symm hc)⟩
      | cons k ls =>
        rw [lines_cons_of_ne hc hs] at h
        rw [hs] at ih
        rcases List.mem_cons.mp h with rfl | h
        · refine ⟨List.cons_ne_nil _ _, ?_⟩
          rcases (ih List.mem_cons_self).2 with ⟨w, rfl, hw⟩ | hk
          · exact Or.inl ⟨c :: w, rfl, by simp [hw, Ne.symm hc]⟩
          · exact Or.inr (by simp [hk, Ne.symm hc])
        · exact ih (List.mem_cons_of_mem _ h)

/-- A line that is not the last has its newline. -/
theorem complete_of_lines_cons {s l : Text} {ls : List Text} (h : lines s = l :: ls)
    (hne : ls ≠ []) : Complete l := by
  induction s generalizing l with
  | nil => cases h
  | cons c s ih =>
    by_cases hc : c = '\n'
    · rw [hc, lines_newline] at h
      obtain ⟨rfl, -⟩ := List.cons.inj h
      exact ⟨[], rfl, List.not_mem_nil⟩
    · cases hs : lines s with
      | nil =>
        have h' : lines (c :: s) = [[c]] := by simp [lines, hc, hs]
        rw [h'] at h
        exact absurd (List.cons.inj h).2.symm hne
      | cons k ks =>
        rw [lines_cons_of_ne hc hs] at h
        obtain ⟨rfl, rfl⟩ := List.cons.inj h
        obtain ⟨w, rfl, hw⟩ := ih hs
        exact ⟨c :: w, rfl, by simp [hw, Ne.symm hc]⟩

/-- A text without a newline is one line. -/
theorem lines_of_not_mem {l : Text} (hne : l ≠ []) (h : '\n' ∉ l) : lines l = [l] := by
  induction l with
  | nil => exact absurd rfl hne
  | cons c l ih =>
    rw [List.mem_cons, not_or] at h
    cases l with
    | nil => simp [lines, Ne.symm h.1]
    | cons d l => exact lines_cons_of_ne (Ne.symm h.1) (ih (List.cons_ne_nil _ _) h.2)

/-- What follows a line with its newline is read on its own. -/
theorem lines_flatten_of_cons {s l : Text} {ls : List Text} (h : lines s = l :: ls) :
    lines ls.flatten = ls := by
  by_cases hne : ls = []
  · rw [hne]
    rfl
  · have hs := flatten_lines s
    rw [h, List.flatten_cons] at hs
    rw [← hs, lines_append (complete_of_lines_cons h hne)] at h
    exact (List.cons.inj h).2

/-- Every line but the last has its newline. -/
theorem complete_of_lines_append {s l : Text} {ls₁ ls₂ : List Text}
    (h : lines s = ls₁ ++ l :: ls₂) (hne : ls₂ ≠ []) : Complete l := by
  induction ls₁ generalizing s with
  | nil => exact complete_of_lines_cons h hne
  | cons k ls₁ ih => exact ih (lines_flatten_of_cons h)

/-- **One line of a text may be replaced** by a line that has its newline if it has. -/
theorem lines_replace {s l l' : Text} {ls₁ ls₂ : List Text} (h : lines s = ls₁ ++ l :: ls₂)
    (hl' : Complete l' ∨ (ls₂ = [] ∧ l' ≠ [] ∧ '\n' ∉ l')) :
    lines (ls₁ ++ l' :: ls₂).flatten = ls₁ ++ l' :: ls₂ := by
  induction ls₁ generalizing s with
  | nil =>
    have hrest := lines_flatten_of_cons h
    rw [List.nil_append, List.flatten_cons]
    rcases hl' with hl' | ⟨rfl, hne, hnot⟩
    · rw [lines_append hl', hrest]
    · rw [List.flatten_nil, List.append_nil, lines_of_not_mem hne hnot]
  | cons k ls₁ ih =>
    have hk := complete_of_lines_cons h (by simp)
    have hrest := ih (lines_flatten_of_cons h)
    rw [List.cons_append, List.flatten_cons, lines_append hk, hrest]

/-! ## A bounded reader -/

/-- The pieces are the text. -/
theorem flatten_piecesFrom (size room : ℕ) (s : Text) : (piecesFrom size room s).flatten = s := by
  induction s generalizing room with
  | nil => rfl
  | cons c s ih =>
    rw [piecesFrom]
    split
    · rw [List.flatten_cons, ih, List.singleton_append]
    · have hrest := ih (room - 1)
      cases hpieces : piecesFrom size (room - 1) s with
      | nil =>
        rw [hpieces, List.flatten_nil] at hrest
        rw [← hrest]
        rfl
      | cons p ps =>
        rw [hpieces, List.flatten_cons] at hrest
        rw [List.flatten_cons, List.cons_append, hrest]

theorem piecesFrom_eq_lines {size room : ℕ} (hroom : 1 ≤ room) {s : Text}
    (hhead : ∀ l, (lines s).head? = some l → l.length ≤ room)
    (htail : ∀ l ∈ (lines s).tail, l.length ≤ size - 1) (hsize : 2 ≤ size) :
    piecesFrom size room s = lines s := by
  induction s generalizing room with
  | nil => rfl
  | cons c s ih =>
    by_cases hc : c = '\n'
    · rw [hc, lines_newline] at hhead htail ⊢
      have hrest : piecesFrom size (size - 1) s = lines s := by
        refine ih (by omega) (fun l hl => htail l ?_) fun l hl => htail l ?_
        · exact List.mem_of_mem_head? hl
        · exact List.mem_of_mem_tail hl
      rw [piecesFrom, if_pos (Or.inl rfl), hrest]
    · cases hs : lines s with
      | nil =>
        have hnil : s = [] := by
          by_contra hne
          exact lines_ne_nil hne hs
        rw [hnil]
        simp [piecesFrom, lines, hc]
      | cons l ls =>
        rw [lines_cons_of_ne hc hs] at hhead htail ⊢
        have hlen := hhead (c :: l) rfl
        have hne : l ≠ [] := (lines_newline_last (hs ▸ List.mem_cons_self)).1
        have hpos := List.length_pos_iff.mpr hne
        rw [List.length_cons] at hlen
        have hrest : piecesFrom size (room - 1) s = lines s := by
          refine ih (by omega) (fun k hk => ?_) fun k hk => htail k (by rwa [hs] at hk)
          rw [hs, List.head?_cons] at hk
          obtain rfl := Option.some.inj hk
          omega
        rw [piecesFrom, if_neg (by simp [hc]; omega), hrest, hs]

/-- A piece ends with its newline, or when the room is used up. -/
theorem piecesFrom_append {size room : ℕ} {a : Text} (hne : a ≠ []) (hline : '\n' ∉ a.dropLast)
    (hend : a.getLast? = some '\n' ∧ a.length ≤ room ∨ a.length = room) (s : Text) :
    piecesFrom size room (a ++ s) = a :: piecesFrom size (size - 1) s := by
  induction a generalizing room with
  | nil => exact absurd rfl hne
  | cons c a ih =>
    cases a with
    | nil =>
      have hstop : c = '\n' ∨ room ≤ 1 := by simpa using hend.imp And.left fun h => h.ge
      rw [List.singleton_append, piecesFrom, if_pos hstop]
    | cons d a =>
      rw [List.dropLast_cons_cons, List.mem_cons, not_or] at hline
      have hlen : (d :: a).length + 1 ≤ room := by
        rcases hend with ⟨-, hle⟩ | heq
        · exact hle
        · exact heq.le
      have hmore : ¬ (c = '\n' ∨ room ≤ 1) := by
        rintro (rfl | hle)
        · exact hline.1 rfl
        · rw [List.length_cons] at hlen
          omega
      have hend' : (d :: a).getLast? = some '\n' ∧ (d :: a).length ≤ room - 1 ∨
          (d :: a).length = room - 1 := by
        rw [List.getLast?_cons_cons, List.length_cons] at hend
        exact hend.imp (fun h => ⟨h.1, by omega⟩) fun h => by omega
      rw [List.cons_append, piecesFrom, if_neg hmore, ih (List.cons_ne_nil _ _) hline.2 hend']

/-- Lines that fit the buffer are read before what follows them. -/
theorem pieces_flatten_append {size : ℕ} {ls : List Text}
    (h : ∀ l ∈ ls, Complete l ∧ l.length ≤ size - 1) (s : Text) :
    pieces size (ls.flatten ++ s) = ls ++ pieces size s := by
  induction ls with
  | nil => rfl
  | cons l ls ih =>
    obtain ⟨⟨w, rfl, hw⟩, hlen⟩ := h l List.mem_cons_self
    have hrest := ih fun k hk => h k (List.mem_cons_of_mem _ hk)
    rw [pieces] at hrest
    rw [List.flatten_cons, List.append_assoc, pieces, piecesFrom_append (by simp)
      (by rwa [List.dropLast_concat]) (Or.inl ⟨List.getLast?_concat, hlen⟩), hrest]
    rfl

/-- **The reader sees the lines** of a text whose lines fit its buffer with their newline. -/
theorem pieces_eq_lines {size : ℕ} (hsize : 2 ≤ size) {s : Text}
    (h : ∀ l ∈ lines s, l.length ≤ size - 1) : pieces size s = lines s :=
  piecesFrom_eq_lines (by omega) (fun l hl => h l (List.mem_of_mem_head? hl))
    (fun l hl => h l (List.mem_of_mem_tail hl)) hsize

/-! ## Words -/

/-- Cut a text at every character of a class; what stands between two of them may be empty. -/
def cut (p : Char → Bool) : Text → List Text
  | [] => [[]]
  | c :: s =>
    if p c then [] :: cut p s
    else
      match cut p s with
      | [] => [[c]]
      | w :: ws => (c :: w) :: ws

/-- The words of a text, between characters of a class. -/
def words (p : Char → Bool) (s : Text) : List Text := (cut p s).filter (· ≠ [])

theorem cut_eq (p : Char → Bool) (s : Text) :
    cut p s = s.takeWhile (fun c => !p c) ::
      (match s.dropWhile (fun c => !p c) with
        | [] => []
        | _ :: t => cut p t) := by
  induction s with
  | nil => rfl
  | cons c s ih =>
    by_cases hc : p c = true
    · simp [cut, hc]
    · rw [cut, if_neg hc, ih]
      simp [hc]

/-- A separator begins no word. -/
theorem words_cons_sep {p : Char → Bool} {c : Char} (h : p c = true) (s : Text) :
    words p (c :: s) = words p s := by simp [words, cut, h]

theorem words_dropWhile (p : Char → Bool) (s : Text) : words p (s.dropWhile p) = words p s := by
  induction s with
  | nil => rfl
  | cons c s ih =>
    by_cases hc : p c = true
    · rw [List.dropWhile_cons_of_pos hc, ih, words_cons_sep hc]
    · rw [List.dropWhile_cons_of_neg hc]

/-- The first word, and the words of what follows it. -/
theorem words_cons {p : Char → Bool} {c : Char} (h : p c = false) (s : Text) :
    words p (c :: s) = (c :: s).takeWhile (fun c => !p c) ::
      words p ((c :: s).dropWhile fun c => !p c) := by
  have hne : (c :: s).takeWhile (fun c => !p c) ≠ [] := by simp [h]
  rw [words, cut_eq, List.filter_cons_of_pos (by simpa using hne)]
  congr 1
  have hstop := List.head?_dropWhile_not (fun c => !p c) (c :: s)
  generalize (c :: s).dropWhile (fun c => !p c) = t at hstop
  cases t with
  | nil => rfl
  | cons d t =>
    have hd : p d = true := by simpa using hstop
    rw [words_cons_sep hd]
    rfl

end TextLines
