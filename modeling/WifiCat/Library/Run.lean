import Mathlib.Data.List.Basic
import Mathlib.Tactic

/-!
# Runs of a deterministic step function, and slot arrays

A run is the fold of a step function over a list of inputs.  `invariant_foldl` packages
the induction of every safety proof; `invariant_foldl_of_good` is its form for a
property that only holds while nothing has gone wrong, where "nothing has gone wrong
so far" is a predicate on the state that later steps can only lose.  `Along` is a property
of every step of a run.

A slot array is a list of optional entries.  `firstFree` is the search for the first
empty slot, and `firstFree_lt` the pigeonhole argument that it succeeds.
-/

set_option autoImplicit false

namespace Run

variable {σ ι : Type}

/-- A property that every step preserves holds at the end of a run that starts in it. -/
theorem invariant_foldl {step : σ → ι → σ} {I : σ → Prop} (hstep : ∀ s a, I s → I (step s a))
    (as : List ι) {s : σ} (hs : I s) : I (as.foldl step s) := by
  induction as generalizing s with
  | nil => exact hs
  | cons a as ih => exact ih (hstep s a hs)

/-- A predicate that a step never regains, once lost, is true before a run that ends in it. -/
theorem good_of_foldl {step : σ → ι → σ} {G : σ → Prop}
    (hmono : ∀ s a, G (step s a) → G s) (as : List ι) {s : σ}
    (h : G (as.foldl step s)) : G s := by
  induction as generalizing s with
  | nil => exact h
  | cons a as ih => exact hmono s a (ih h)

/-- A property that every good step preserves holds at the end of a run that is good. -/
theorem invariant_foldl_of_good {step : σ → ι → σ} {I G : σ → Prop}
    (hmono : ∀ s a, G (step s a) → G s)
    (hstep : ∀ s a, I s → G (step s a) → I (step s a))
    (as : List ι) {s : σ} (hs : I s) (hgood : G (as.foldl step s)) :
    I (as.foldl step s) := by
  induction as generalizing s with
  | nil => exact hs
  | cons a as ih =>
    have hg : G (step s a) := good_of_foldl hmono as hgood
    exact ih (hstep s a hs hg) hgood

/-- **Provenance**: what is seen at the end of a run, and was not at its start, came with one of the
steps, if a step only brings what belongs to it. -/
theorem mem_view_foldl {α : Type} {step : σ → ι → σ} {I : σ → Prop} {V : σ → α → Prop}
    {B : ι → α → Prop} (hI : ∀ s a, I s → I (step s a))
    (hstep : ∀ s a, I s → ∀ x, V (step s a) x → V s x ∨ B a x) (as : List ι) {s : σ}
    (hs : I s) {x : α} (hx : V (as.foldl step s) x) :
    V s x ∨ ∃ a ∈ as, B a x := by
  induction as generalizing s with
  | nil => exact Or.inl hx
  | cons a as ih =>
    rcases ih (hI s a hs) hx with h | ⟨b, hb, h⟩
    · rcases hstep s a hs x h with h | h
      · exact Or.inl h
      · exact Or.inr ⟨a, List.mem_cons_self, h⟩
    · exact Or.inr ⟨b, List.mem_cons_of_mem a hb, h⟩

/-- A property of a state and the input it meets holds at every step of a run. -/
def Along (step : σ → ι → σ) (P : σ → ι → Prop) : σ → List ι → Prop
  | _, [] => True
  | s, a :: as => P s a ∧ Along step P (step s a) as

instance decidableAlong {step : σ → ι → σ} {P : σ → ι → Prop} [∀ s a, Decidable (P s a)] :
    (s : σ) → (as : List ι) → Decidable (Along step P s as)
  | _, [] => inferInstanceAs (Decidable True)
  | s, a :: as =>
    have : Decidable (Along step P (step s a) as) := decidableAlong (step s a) as
    inferInstanceAs (Decidable (P s a ∧ Along step P (step s a) as))

/-- Two properties that agree under an invariant that the first one keeps hold along the same
runs. -/
theorem along_congr {step : σ → ι → σ} {I : σ → Prop} {P Q : σ → ι → Prop} (as : List ι)
    (hiff : ∀ s, ∀ a ∈ as, I s → (P s a ↔ Q s a))
    (hkeep : ∀ s, ∀ a ∈ as, I s → P s a → I (step s a)) {s : σ} (hs : I s) :
    Along step P s as ↔ Along step Q s as := by
  induction as generalizing s with
  | nil => exact Iff.rfl
  | cons a as ih =>
    have hrest : ∀ {s}, I s → (Along step P s as ↔ Along step Q s as) :=
      ih (fun s b hb => hiff s b (List.mem_cons_of_mem a hb))
        (fun s b hb => hkeep s b (List.mem_cons_of_mem a hb))
    have hfirst := hiff s a List.mem_cons_self hs
    constructor
    · rintro ⟨hP, hP'⟩
      exact ⟨hfirst.mp hP, (hrest (hkeep s a List.mem_cons_self hs hP)).mp hP'⟩
    · rintro ⟨hQ, hQ'⟩
      have hP := hfirst.mpr hQ
      exact ⟨hP, (hrest (hkeep s a List.mem_cons_self hs hP)).mpr hQ'⟩

end Run

namespace Slots

variable {α : Type}

/-- The first of the slots `0 … n - 1` that is empty, `n` when there is none. -/
def firstFree (arr : List (Option α)) (n : ℕ) : ℕ :=
  ((List.range n).find? fun i => (arr.getD i none).isNone).getD n

/-- A search that ends below the bound has found an empty slot. -/
theorem firstFree_spec {arr : List (Option α)} {n : ℕ} (h : firstFree arr n < n) :
    arr.getD (firstFree arr n) none = none := by
  unfold firstFree at h ⊢
  cases hf : (List.range n).find? fun i => (arr.getD i none).isNone with
  | none =>
    rw [hf, Option.getD_none] at h
    exact absurd h (lt_irrefl n)
  | some i => simpa using List.find?_some hf

/-- **Pigeonhole**: when every occupied slot below `n` is the slot of one of fewer than
`n` keys, the search ends below the bound. -/
theorem firstFree_lt {arr : List (Option α)} {n : ℕ} (keys : List ℕ)
    (hocc : ∀ i < n, (arr.getD i none).isSome → i ∈ keys) (hlen : keys.length < n) :
    firstFree arr n < n := by
  unfold firstFree
  cases hf : (List.range n).find? fun i => (arr.getD i none).isNone with
  | some i =>
    have hmem := List.mem_of_find?_eq_some hf
    simpa using hmem
  | none =>
    exfalso
    have hall : List.range n ⊆ keys := by
      intro i hi
      have hne := List.find?_eq_none.mp hf i hi
      refine hocc i (List.mem_range.mp hi) ?_
      simpa [Option.isSome_iff_ne_none] using hne
    have hle := (List.subperm_of_subset List.nodup_range hall).length_le
    rw [List.length_range] at hle
    omega

end Slots
