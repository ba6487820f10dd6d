import Mathlib.Data.List.Basic

/-!
# Letters that absorb one another

A word of letters is run over a state.  Running it twice is running it once when its letters
are of two kinds: those that settle something once and for all (`foldl_of_settled`), and those
of which the later one makes an earlier one forgotten (`foldl_of_overwritten`).  When the two
kinds do not interfere a mixed word is run kind by kind (`foldl_filter`), and `foldl_twice`
says it of all words.
-/

set_option autoImplicit false

namespace Absorption

variable {σ α : Type} (f : σ → α → σ)

/-- The letter has nothing to do in the state. -/
def Still (p : α) (s : σ) : Prop := f s p = s

/-- The later letter makes the earlier one forgotten, or the two may be swapped. -/
def Overwrites (p q : α) : Prop :=
  (∀ s, f (f s p) q = f s q) ∨ ∀ s, f (f s p) q = f (f s q) p

section Settling

variable {f} (kind : α → Prop) {w : List α}

/-- What has nothing to do stays so. -/
theorem Still.foldl (hkeep : ∀ p q, kind p → kind q → ∀ s, Still f p s → Still f p (f s q))
    {p : α} {s : σ} (hp : kind p) (hw : ∀ q ∈ w, kind q) (h : Still f p s) :
    Still f p (w.foldl f s) := by
  induction w generalizing s with
  | nil => exact h
  | cons q w ih =>
    obtain ⟨hq, hrest⟩ := List.forall_mem_cons.mp hw
    exact ih hrest (hkeep p q hp hq s h)

/-- Every letter of a word has nothing to do behind it. -/
theorem still_foldl_of_mem (hidem : ∀ p s, Still f p (f s p))
    (hkeep : ∀ p q, kind p → kind q → ∀ s, Still f p s → Still f p (f s q))
    {p : α} (hp : p ∈ w) (hw : ∀ q ∈ w, kind q) (s : σ) : Still f p (w.foldl f s) := by
  induction w generalizing s with
  | nil => cases hp
  | cons q w ih =>
    obtain ⟨hq, hrest⟩ := List.forall_mem_cons.mp hw
    rcases List.mem_cons.mp hp with rfl | hp
    · rw [List.foldl_cons]
      exact Still.foldl kind hkeep hq hrest (hidem p s)
    · exact ih hp hrest (f s q)

theorem foldl_of_still {s : σ} (h : ∀ p ∈ w, Still f p s) : w.foldl f s = s := by
  induction w with
  | nil => rfl
  | cons p w ih =>
    obtain ⟨hp, hrest⟩ := List.forall_mem_cons.mp h
    rw [List.foldl_cons, hp, ih hrest]

/-- INTERNAL: A word of settling letters does nothing behind itself. -/
theorem foldl_of_settled (hidem : ∀ p s, Still f p (f s p))
    (hkeep : ∀ p q, kind p → kind q → ∀ s, Still f p s → Still f p (f s q))
    (hw : ∀ q ∈ w, kind q) (s : σ) : w.foldl f (w.foldl f s) = w.foldl f s :=
  foldl_of_still fun _ hp => still_foldl_of_mem kind hidem hkeep hp hw s

end Settling

section Overwriting

variable {f} (kind : α → Prop) {w : List α}

/-- A letter of a word is forgotten when the word is run. -/
theorem foldl_forgets (hidem : ∀ p s, Still f p (f s p))
    (hover : ∀ p q, kind p → kind q → Overwrites f p q) {p : α} (hp : p ∈ w)
    (hw : ∀ q ∈ w, kind q) (s : σ) : w.foldl f (f s p) = w.foldl f s := by
  have hkp := hw p hp
  induction w generalizing s with
  | nil => cases hp
  | cons q w ih =>
    obtain ⟨hq, hrest⟩ := List.forall_mem_cons.mp hw
    rw [List.foldl_cons, List.foldl_cons]
    rcases List.mem_cons.mp hp with rfl | hp
    · rw [hidem p s]
    · rcases hover p q hkp hq with habsorb | hswap
      · rw [habsorb s]
      · rw [hswap s, ih hp hrest]

/-- INTERNAL: A word of overwriting letters forgets what it has done before. -/
theorem foldl_of_overwritten (hidem : ∀ p s, Still f p (f s p))
    (hover : ∀ p q, kind p → kind q → Overwrites f p q) (hw : ∀ q ∈ w, kind q) (s : σ) :
    w.foldl f (w.foldl f s) = w.foldl f s := by
  have hsub : ∀ u ⊆ w, w.foldl f (u.foldl f s) = w.foldl f s := by
    intro u hu
    induction u generalizing s with
    | nil => rfl
    | cons p u ih =>
      obtain ⟨hp, hrest⟩ := List.cons_subset.mp hu
      rw [List.foldl_cons, ih (f s p) hrest, foldl_forgets kind hidem hover hp hw]
  exact hsub w (List.Subset.refl w)

end Overwriting

section Mixed

variable {f} (kind : α → Bool)

/-- A letter that may be swapped with those of a word is moved behind it. -/
theorem foldl_swap {p : α} {w : List α} (h : ∀ q ∈ w, ∀ s, f (f s p) q = f (f s q) p) (s : σ) :
    w.foldl f (f s p) = f (w.foldl f s) p := by
  induction w generalizing s with
  | nil => rfl
  | cons q w ih =>
    obtain ⟨hq, hrest⟩ := List.forall_mem_cons.mp h
    rw [List.foldl_cons, List.foldl_cons, hq, ih hrest]

/-- The letters of two kinds that do not interfere are run kind by kind. -/
theorem foldl_filter
    (hswap : ∀ p q, kind p = true → kind q = false → ∀ s, f (f s q) p = f (f s p) q)
    (w : List α) (s : σ) :
    w.foldl f s = (w.filter fun p => !kind p).foldl f ((w.filter kind).foldl f s) := by
  induction w generalizing s with
  | nil => rfl
  | cons p w ih =>
    rw [List.foldl_cons, ih]
    cases hp : kind p with
    | true => simp [hp]
    | false =>
      have hmove : (w.filter kind).foldl f (f s p) = f ((w.filter kind).foldl f s) p :=
        foldl_swap (fun q hq => hswap q p (List.mem_filter.mp hq).2 hp) s
      simp [hp, hmove]

/-- INTERNAL: A word of letters that overwrite and letters that settle, which do not interfere,
does the same when it is run twice. -/
theorem foldl_twice (hidem : ∀ p s, Still f p (f s p))
    (hover : ∀ p q, kind p = true → kind q = true → Overwrites f p q)
    (hkeep : ∀ p q, kind p = false → kind q = false → ∀ s, Still f p s → Still f p (f s q))
    (hswap : ∀ p q, kind p = true → kind q = false → ∀ s, f (f s q) p = f (f s p) q)
    (w : List α) (s : σ) : w.foldl f (w.foldl f s) = w.foldl f s := by
  set swaps := w.filter kind with hswapsDef
  set settle := w.filter fun p => !kind p with hsettleDef
  have hswapsKind : ∀ q ∈ swaps, kind q = true := fun q hq => (List.mem_filter.mp hq).2
  have hsettleKind : ∀ q ∈ settle, kind q = false := fun q hq => by
    simpa using (List.mem_filter.mp hq).2
  have hrun : ∀ s, w.foldl f s = settle.foldl f (swaps.foldl f s) := foldl_filter kind hswap w
  -- the two kinds of the two runs, the inner ones swapped
  have hmove : ∀ s, swaps.foldl f (settle.foldl f s) = settle.foldl f (swaps.foldl f s) := by
    intro s
    have hboth := foldl_filter kind hswap (settle ++ swaps) s
    rw [List.foldl_append, List.filter_append, List.filter_append,
      List.filter_eq_nil_iff.mpr (fun q hq => by simp [hsettleKind q hq]),
      List.filter_eq_self.mpr hswapsKind,
      List.filter_eq_self.mpr (fun q hq => by simp [hsettleKind q hq]),
      List.filter_eq_nil_iff.mpr (fun q hq => by simp [hswapsKind q hq]),
      List.nil_append, List.append_nil] at hboth
    exact hboth
  calc w.foldl f (w.foldl f s)
      = settle.foldl f (swaps.foldl f (settle.foldl f (swaps.foldl f s))) := by rw [hrun, hrun]
    _ = settle.foldl f (settle.foldl f (swaps.foldl f (swaps.foldl f s))) := by rw [hmove]
    _ = settle.foldl f (swaps.foldl f s) := by
      rw [foldl_of_overwritten (kind · = true) hidem hover hswapsKind,
        foldl_of_settled (kind · = false) hidem hkeep hsettleKind]
    _ = w.foldl f s := (hrun s).symm

end Mixed

end Absorption
