import Mathlib.Tactic

/-!
# While loops

A loop runs its body as long as its condition holds; `run` gives up when its fuel is used
up, and `Ends` says that some fuel is enough.  A loop ends in at most one state, it ends
when a number falls at every round (`exists_ends`), and it never ends when every round
leads to another one (`not_ends`).
-/

set_option autoImplicit false

namespace WhileLoop

variable {σ : Type} {cond : σ → Bool} {body : σ → σ} {s s' s'' : σ}

/-- The state after the loop, if the fuel is enough. -/
def run (cond : σ → Bool) (body : σ → σ) : ℕ → σ → Option σ
  | 0, _ => none
  | fuel + 1, s => if cond s then run cond body fuel (body s) else some s

/-- The loop ends, in `s'`. -/
def Ends (cond : σ → Bool) (body : σ → σ) (s s' : σ) : Prop :=
  ∃ fuel, run cond body fuel s = some s'

/-- A loop whose condition fails ends at once. -/
theorem ends_of_not (h : cond s = false) : Ends cond body s s' ↔ s' = s := by
  constructor
  · rintro ⟨fuel, hrun⟩
    cases fuel with
    | zero => cases hrun
    | succ fuel =>
      rw [run, if_neg (by simp [h])] at hrun
      exact (Option.some.inj hrun).symm
  · rintro rfl
    exact ⟨1, by rw [run, if_neg (by simp [h])]⟩

/-- A loop whose condition holds ends where it ends after a round. -/
theorem ends_of_cond (h : cond s = true) :
    Ends cond body s s' ↔ Ends cond body (body s) s' := by
  constructor
  · rintro ⟨fuel, hrun⟩
    cases fuel with
    | zero => cases hrun
    | succ fuel =>
      rw [run, if_pos h] at hrun
      exact ⟨fuel, hrun⟩
  · rintro ⟨fuel, hrun⟩
    exact ⟨fuel + 1, by rw [run, if_pos h, hrun]⟩

/-- More fuel does not change the end. -/
theorem run_mono {fuel : ℕ} (h : run cond body fuel s = some s') (more : ℕ) :
    run cond body (fuel + more) s = some s' := by
  induction fuel generalizing s with
  | zero => cases h
  | succ fuel ih =>
    rw [Nat.succ_add, run]
    rw [run] at h
    split at h
    · next hcond => rw [if_pos hcond, ih h]
    · next hcond => rw [if_neg hcond, h]

/-- A loop ends in one state. -/
theorem Ends.unique (h : Ends cond body s s') (h' : Ends cond body s s'') : s' = s'' := by
  obtain ⟨fuel, hrun⟩ := h
  obtain ⟨fuel', hrun'⟩ := h'
  have hmore := run_mono hrun fuel'
  rw [Nat.add_comm, run_mono hrun' fuel] at hmore
  exact (Option.some.inj hmore).symm

/-- A loop whose rounds keep an invariant and lower a number ends, with the invariant. -/
theorem exists_ends {I : σ → Prop} (rank : σ → ℕ) (hs : I s)
    (hbody : ∀ s, I s → cond s = true → I (body s) ∧ rank (body s) < rank s) :
    ∃ s', Ends cond body s s' ∧ I s' ∧ cond s' = false := by
  induction hrank : rank s using Nat.strongRecOn generalizing s with
  | ind r ih =>
    cases hcond : cond s with
    | false => exact ⟨s, (ends_of_not hcond).mpr rfl, hs, hcond⟩
    | true =>
      obtain ⟨hinv, hlt⟩ := hbody s hs hcond
      obtain ⟨s', hends, hinv', hstop⟩ := ih _ (hrank ▸ hlt) hinv rfl
      exact ⟨s', (ends_of_cond hcond).mpr hends, hinv', hstop⟩

/-- A loop every round of which leads to another one does not end. -/
theorem not_ends {I : σ → Prop} (hs : I s) (hcond : ∀ s, I s → cond s = true)
    (hbody : ∀ s, I s → I (body s)) : ¬Ends cond body s s' := by
  rintro ⟨fuel, hrun⟩
  induction fuel generalizing s with
  | zero => cases hrun
  | succ fuel ih =>
    rw [run, if_pos (hcond s hs)] at hrun
    exact ih (hbody s hs) hrun

end WhileLoop
