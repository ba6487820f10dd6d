import Mathlib.Data.List.TakeWhile
import Mathlib.Tactic

/-!
# Templates

A template is a text in which a mark and a name stand for a value; a mark before a name without a
value stands for itself.  `expand` puts the values in, and does not look for names in them.  The
names of a template are those that stand behind its marks (`names`).
-/

set_option autoImplicit false

namespace Template

variable {α : Type} [DecidableEq α] (mark : α) (named : α → Bool)

/-- The names behind the marks of a text, from behind its first `n` elements on. -/
def namesFrom : List α → ℕ → List (List α)
  | [], _ => []
  | _ :: s, n + 1 => namesFrom s n
  | c :: s, 0 =>
    if c = mark then s.takeWhile named :: namesFrom s (s.takeWhile named).length
    else namesFrom s 0

/-- The names of a template. -/
def names (s : List α) : List (List α) := namesFrom mark named s 0

variable (value : List α → Option (List α))

/-- What a mark with a name becomes. -/
def inserted (name : List α) : List α := (value name).getD (mark :: name)

/-- A text from behind its first `n` elements on, with the values of its names. -/
def expandFrom : List α → ℕ → List α
  | [], _ => []
  | _ :: s, n + 1 => expandFrom s n
  | c :: s, 0 =>
    if c = mark then
      inserted mark value (s.takeWhile named) ++ expandFrom s (s.takeWhile named).length
    else c :: expandFrom s 0

/-- A template with the values of its names. -/
def expand (s : List α) : List α := expandFrom mark named value s 0

variable {mark named value}

theorem expandFrom_eq (s : List α) (n : ℕ) :
    expandFrom mark named value s n = expand mark named value (s.drop n) := by
  induction s generalizing n with
  | nil => simp [expand, expandFrom]
  | cons c s ih =>
    cases n with
    | zero => rfl
    | succ n => exact ih n

theorem namesFrom_eq (s : List α) (n : ℕ) :
    namesFrom mark named s n = names mark named (s.drop n) := by
  induction s generalizing n with
  | nil => simp [names, namesFrom]
  | cons c s ih =>
    cases n with
    | zero => rfl
    | succ n => exact ih n

omit [DecidableEq α] in
/-- What stands behind a name. -/
theorem drop_length_takeWhile (s : List α) :
    s.drop (s.takeWhile named).length = s.dropWhile named := by
  have hparts : s.takeWhile named ++ s.dropWhile named = s := List.takeWhile_append_dropWhile
  calc s.drop (s.takeWhile named).length
      = (s.takeWhile named ++ s.dropWhile named).drop (s.takeWhile named).length := by rw [hparts]
    _ = s.dropWhile named := List.drop_left

@[simp] theorem expand_nil : expand mark named value [] = [] := rfl

theorem expand_mark (s : List α) :
    expand mark named value (mark :: s) =
      inserted mark value (s.takeWhile named) ++ expand mark named value (s.dropWhile named) := by
  rw [expand, expandFrom, if_pos rfl, expandFrom_eq, drop_length_takeWhile]

theorem expand_cons {c : α} (h : c ≠ mark) (s : List α) :
    expand mark named value (c :: s) = c :: expand mark named value s :=
  if_neg h

theorem names_mark (s : List α) :
    names mark named (mark :: s) = s.takeWhile named :: names mark named (s.dropWhile named) := by
  rw [names, namesFrom, if_pos rfl, namesFrom_eq, drop_length_takeWhile]

/-- A name by itself is a template. -/
theorem expand_name {name : List α} (h : ∀ c ∈ name, named c = true) :
    expand mark named value (mark :: name) = inserted mark value name := by
  rw [expand_mark, List.takeWhile_eq_self_iff.mpr h, List.dropWhile_eq_nil_iff.mpr h, expand_nil,
    List.append_nil]

theorem names_name {name : List α} (h : ∀ c ∈ name, named c = true) :
    names mark named (mark :: name) = [name] := by
  rw [names_mark, List.takeWhile_eq_self_iff.mpr h, List.dropWhile_eq_nil_iff.mpr h]
  rfl

/-- What the text and all values have, the text with its values has. -/
theorem forall_mem_expand {P : α → Prop} (hvalue : ∀ name v, value name = some v → ∀ c ∈ v, P c)
    {s : List α} (hs : ∀ c ∈ s, P c) : ∀ c ∈ expand mark named value s, P c := by
  induction hn : s.length using Nat.strong_induction_on generalizing s with
  | _ n ih =>
    cases s with
    | nil => exact fun c hc => by cases hc
    | cons c s =>
      have hrest : ∀ d ∈ s, P d := fun d hd => hs d (List.mem_cons_of_mem c hd)
      by_cases hc : c = mark
      · have hlength : (s.dropWhile named).length < n := by
          have hle := (List.dropWhile_sublist named (l := s)).length_le
          rw [← hn, List.length_cons]
          omega
        subst hc
        rw [expand_mark]
        intro d hd
        rcases List.mem_append.mp hd with hd | hd
        · cases hname : value (s.takeWhile named) with
          | some v =>
            rw [inserted, hname, Option.getD_some] at hd
            exact hvalue _ v hname d hd
          | none =>
            rw [inserted, hname, Option.getD_none] at hd
            rcases List.mem_cons.mp hd with rfl | hd
            · exact hs d List.mem_cons_self
            · exact hrest d (List.takeWhile_subset named hd)
        · exact ih _ hlength (fun e he => hrest e (List.dropWhile_subset named he)) rfl d hd
      · rw [expand_cons hc]
        exact List.forall_mem_cons.mpr
          ⟨hs c List.mem_cons_self, ih s.length (by rw [← hn]; simp) hrest rfl⟩

end Template
