import Mathlib.Data.List.Perm.Basic

/-!
# Rearranging actions that may fail

A state is seen through its parts.  An action that reads some parts and writes some has a
`Footprint`; two actions commute when neither writes what the other reads or writes
(`Footprint.commute`).  A list of actions may be rearranged as long as those that do not
commute keep their order: `foldlM_eq_of_perm`.
-/

set_option autoImplicit false

namespace Rearrangement

variable {σ ι α : Type}

/-- Two actions that may be swapped. -/
def Commute (a b : σ → Option σ) : Prop := ∀ s, (a s).bind b = (b s).bind a

/-- What an action reads and writes of the parts of a state. -/
structure Footprint {V : ι → Type} (get : σ → (i : ι) → V i) (act : σ → Option σ)
    (reads writes : ι → Prop) : Prop where
  /-- The other parts stay. -/
  frame : ∀ s t, act s = some t → ∀ i, ¬ writes i → get t i = get s i
  /-- Whether it fails, and what it writes, depends on what it reads. -/
  fails : ∀ s s', (∀ i, reads i → get s i = get s' i) → act s = none → act s' = none
  depends : ∀ s s' t t', (∀ i, reads i → get s i = get s' i) → act s = some t →
    act s' = some t' → ∀ i, writes i → get t i = get t' i

/-- Actions on separate parts commute. -/
theorem Footprint.commute {V : ι → Type} {get : σ → (i : ι) → V i}
    (hext : ∀ s t, (∀ i, get s i = get t i) → s = t) {a b : σ → Option σ}
    {reads writes reads' writes' : ι → Prop} (ha : Footprint get a reads writes)
    (hb : Footprint get b reads' writes')
    (hwrites : ∀ i, writes i → ¬ reads' i ∧ ¬ writes' i)
    (hwrites' : ∀ i, writes' i → ¬ reads i ∧ ¬ writes i) : Commute a b := by
  -- what one action leaves is, on the parts the other reads, what was there before
  have hkeep : ∀ s t, a s = some t → ∀ i, reads' i → get t i = get s i := fun s t h i hi =>
    ha.frame s t h i fun hw => (hwrites i hw).1 hi
  have hkeep' : ∀ s t, b s = some t → ∀ i, reads i → get t i = get s i := fun s t h i hi =>
    hb.frame s t h i fun hw => (hwrites' i hw).1 hi
  intro s
  cases has : a s with
  | none =>
    cases hbs : b s with
    | none => rfl
    | some u => exact (ha.fails s u (fun i hi => (hkeep' s u hbs i hi).symm) has).symm
  | some t =>
    cases hbs : b s with
    | none => exact hb.fails s t (fun i hi => (hkeep s t has i hi).symm) hbs
    | some u =>
      rw [Option.bind_some, Option.bind_some]
      cases hbt : b t with
      | none =>
        have hnone := hb.fails t s (hkeep s t has) hbt
        rw [hbs] at hnone
        cases hnone
      | some v =>
        cases hau : a u with
        | none =>
          have hnone := ha.fails u s (hkeep' s u hbs) hau
          rw [has] at hnone
          cases hnone
        | some v' =>
          refine congrArg some (hext v v' fun i => ?_)
          by_cases hw : writes i
          · rw [hb.frame t v hbt i (hwrites i hw).2]
            exact ha.depends s u t v' (fun j hj => (hkeep' s u hbs j hj).symm) has hau i hw
          · rw [ha.frame u v' hau i hw]
            by_cases hw' : writes' i
            · exact hb.depends t s v u (hkeep s t has) hbt hbs i hw'
            · rw [hb.frame t v hbt i hw', hb.frame s u hbs i hw', ha.frame s t has i hw]

section Put

variable {V : ι → Type} {get : σ → (i : ι) → V i}

/-- An action that does nothing. -/
theorem footprint_some {reads writes : ι → Prop} (h : ∀ i, ¬ writes i) :
    Footprint get some reads writes where
  frame := fun s t hst i _ => by rw [Option.some.inj hst]
  fails := fun s s' _ hs => by cases hs
  depends := fun s s' t t' _ _ _ i hi => (h i hi).elim

/-- An action that always fails. -/
theorem footprint_none (reads writes : ι → Prop) :
    Footprint get (fun _ => none) reads writes where
  frame := fun s t h => by cases h
  fails := fun s s' _ _ => rfl
  depends := fun s s' t t' _ h => by cases h

/-- An action that sets one part to a value, if there is one, that it makes of what it reads. -/
theorem footprint_put {put : σ → (i : ι) → V i → σ} (hself : ∀ s i v, get (put s i v) i = v)
    (hother : ∀ s i v j, j ≠ i → get (put s i v) j = get s j) {reads : ι → Prop} {i : ι}
    {val : σ → Option (V i)}
    (hval : ∀ s s', (∀ j, reads j → get s j = get s' j) → val s = val s') :
    Footprint get (fun s => (val s).map (put s i)) reads (· = i) where
  frame := by
    intro s t h j hj
    obtain ⟨v, -, rfl⟩ := Option.map_eq_some_iff.mp h
    exact hother s i v j hj
  fails := by
    intro s s' hreads h
    rw [Option.map_eq_none_iff] at h ⊢
    rw [← hval s s' hreads, h]
  depends := by
    rintro s s' t t' hreads h h' j rfl
    obtain ⟨v, hv, rfl⟩ := Option.map_eq_some_iff.mp h
    obtain ⟨v', hv', rfl⟩ := Option.map_eq_some_iff.mp h'
    rw [hval s s' hreads, hv'] at hv
    rw [hself, hself, Option.some.inj hv]

end Put

theorem Commute.symm {a b : σ → Option σ} (h : Commute a b) : Commute b a := fun s => (h s).symm

/-- An action moves over a list of actions that it commutes with. -/
theorem foldlM_middle {act : α → σ → Option σ} {a : α} {p : List α}
    (hcomm : ∀ x ∈ p, Commute (act a) (act x)) (q : List α) (s : σ) :
    (p ++ a :: q).foldlM (fun s x => act x s) s =
      (a :: (p ++ q)).foldlM (fun s x => act x s) s := by
  induction p generalizing s with
  | nil => rfl
  | cons x p ih =>
    have hswap := hcomm x List.mem_cons_self s
    have hrest := ih fun y hy => hcomm y (List.mem_cons_of_mem _ hy)
    simp only [List.cons_append, List.foldlM_cons, Option.bind_eq_bind] at hrest ⊢
    calc (act x s).bind (fun s => (p ++ a :: q).foldlM (fun s x => act x s) s)
        = (act x s).bind fun s => (act a s).bind fun s =>
            (p ++ q).foldlM (fun s x => act x s) s := by simp only [hrest]
      _ = ((act x s).bind (act a)).bind fun s => (p ++ q).foldlM (fun s x => act x s) s :=
          (Option.bind_assoc _ _ _).symm
      _ = ((act a s).bind (act x)).bind fun s => (p ++ q).foldlM (fun s x => act x s) s := by
          rw [hswap]
      _ = _ := Option.bind_assoc _ _ _

/-- **Lists of actions that are the same but for the order** do the same, when any two actions
that may not be swapped come in the same order. -/
theorem foldlM_eq_of_perm [DecidableEq α] {act : α → σ → Option σ} {l₁ l₂ : List α}
    (hperm : l₁.Perm l₂)
    (horder : ∀ a ∈ l₁, ∀ b ∈ l₁, ¬ Commute (act a) (act b) →
      l₁.filter (fun x => x = a ∨ x = b) = l₂.filter fun x => x = a ∨ x = b) (s : σ) :
    l₁.foldlM (fun s x => act x s) s = l₂.foldlM (fun s x => act x s) s := by
  induction l₁ generalizing l₂ s with
  | nil => rw [hperm.nil_eq]
  | cons a l ih =>
    obtain ⟨p, q, rfl, hap⟩ := List.eq_append_cons_of_mem (hperm.subset List.mem_cons_self)
    have hperm' : l.Perm (p ++ q) := (List.perm_cons a).mp (hperm.trans List.perm_middle)
    have hmem : ∀ x ∈ p, x ∈ a :: l := fun x hx => hperm.symm.subset (List.mem_append_left _ hx)
    -- an action before the first `a` may be swapped with it
    have hsep : ∀ x ∈ p, Commute (act a) (act x) := by
      intro x hx
      by_contra hnot
      have hheads := congrArg List.head? (horder a List.mem_cons_self x (hmem x hx) hnot)
      rw [List.filter_cons_of_pos (by simp), List.filter_append, List.head?_cons] at hheads
      have hx' : x ∈ p.filter fun y => y = a ∨ y = x := List.mem_filter.mpr ⟨hx, by simp⟩
      obtain ⟨y, ys, hys⟩ := List.exists_cons_of_ne_nil (List.ne_nil_of_mem hx')
      rw [hys, List.cons_append, List.head?_cons] at hheads
      have hy : y ∈ p.filter fun y => y = a ∨ y = x := hys ▸ List.mem_cons_self
      exact hap (Option.some.inj hheads ▸ (List.mem_filter.mp hy).1)
    have horder' : ∀ b ∈ l, ∀ d ∈ l, ¬ Commute (act b) (act d) →
        l.filter (fun x => x = b ∨ x = d) = (p ++ q).filter fun x => x = b ∨ x = d := by
      intro b hb d hd hnot
      have h := horder b (List.mem_cons_of_mem _ hb) d (List.mem_cons_of_mem _ hd) hnot
      rw [List.filter_append] at h ⊢
      by_cases ha : a = b ∨ a = d
      · -- the other one of the two is not before `a`
        have hp : p.filter (fun x => x = b ∨ x = d) = [] := by
          refine List.filter_eq_nil_iff.mpr fun x hx hxbd => ?_
          rw [decide_eq_true_eq] at hxbd
          have hcomm := hsep x hx
          rcases ha with rfl | rfl <;> rcases hxbd with rfl | rfl
          · exact hap hx
          · exact hnot hcomm
          · exact hnot hcomm.symm
          · exact hap hx
        rw [List.filter_cons_of_pos (by simpa using ha),
          List.filter_cons_of_pos (by simpa using ha), hp] at h
        rw [hp]
        exact (List.cons.inj h).2
      · rwa [List.filter_cons_of_neg (by simpa using ha),
          List.filter_cons_of_neg (by simpa using ha)] at h
    rw [foldlM_middle hsep q s]
    simp only [List.foldlM_cons, Option.bind_eq_bind]
    exact congrArg (Option.bind (act a s)) (funext fun s => ih hperm' horder' s)

end Rearrangement
