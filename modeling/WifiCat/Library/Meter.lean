import Mathlib.Order.Lattice
import Mathlib.Data.List.Basic
import Mathlib.Tactic

/-!
# Meters that are set to the largest reading

A meter takes readings one after the other; a reading that is meant for it (`hit`) and
exceeds what it shows becomes what it shows.  `RaisedBy` says that only readings of a
given kind ever raise it, and `raisedBy_iff` when that is so, in terms of the readings
alone: a reading of another kind must not exceed the start value, unless a reading of the
kind came before it that it does not exceed either.  `LastRaise` is the reading that raised
the meter last.
-/

set_option autoImplicit false

namespace Meter

variable {α ι : Type} [LinearOrder α] (hit : ι → Prop) [DecidablePred hit] (value : ι → α)

/-- What a meter shows after readings, from what it showed before. -/
def shown (v : α) (rs : List ι) : α :=
  rs.foldl (fun v r => if hit r then max v (value r) else v) v

@[simp] theorem shown_nil (v : α) : shown hit value v [] = v := rfl

theorem shown_append_singleton (v : α) (rs : List ι) (r : ι) :
    shown hit value v (rs ++ [r]) =
      if hit r then max (shown hit value v rs) (value r) else shown hit value v rs := by
  simp [shown]

/-- A bound of what a meter shows is one of the start value and of all readings meant
for it. -/
theorem shown_le_iff {v b : α} {rs : List ι} :
    shown hit value v rs ≤ b ↔ v ≤ b ∧ ∀ r ∈ rs, hit r → value r ≤ b := by
  induction rs generalizing v with
  | nil => simp
  | cons r rs ih =>
    simp only [shown, List.foldl_cons] at ih ⊢
    rw [ih]
    split
    · next hr => simp [hr, and_assoc]
    · next hr => simp [hr]

theorem le_shown (v : α) (rs : List ι) : v ≤ shown hit value v rs :=
  ((shown_le_iff hit value).mp le_rfl).1

theorem value_le_shown (v : α) {rs : List ι} {r : ι} (hmem : r ∈ rs) (hr : hit r) :
    value r ≤ shown hit value v rs :=
  ((shown_le_iff hit value).mp le_rfl).2 r hmem hr

/-- The last reading that raised the meter, if any did: none after it is above it. -/
def LastRaise (v : α) (rs : List ι) : Option ι → Prop
  | none => ∀ r ∈ rs, hit r → value r ≤ v
  | some r => ∃ before after, rs = before ++ r :: after ∧ hit r ∧
      shown hit value v before < value r ∧ ∀ r' ∈ after, hit r' → value r' ≤ value r

section LastRaise

variable {hit value} {v : α} {rs : List ι} {o : Option ι}

/-- What a meter shows is the reading that raised it last, or the start value. -/
theorem LastRaise.shown_eq (h : LastRaise hit value v rs o) :
    shown hit value v rs = (o.map value).getD v := by
  cases o with
  | none => exact le_antisymm ((shown_le_iff hit value).mpr ⟨le_rfl, h⟩) (le_shown hit value v rs)
  | some r =>
    obtain ⟨before, after, rfl, hr, hraise, hafter⟩ := h
    refine le_antisymm ((shown_le_iff hit value).mpr ?_) (value_le_shown hit value v (by simp) hr)
    have hbefore := (shown_le_iff hit value).mp hraise.le
    refine ⟨hbefore.1, fun r' hmem hr' => ?_⟩
    rcases List.mem_append.mp hmem with hmem | hmem
    · exact hbefore.2 r' hmem hr'
    · rcases List.mem_cons.mp hmem with rfl | hmem
      · exact le_rfl
      · exact hafter r' hmem hr'

/-- One more reading: it is the last that raised the meter if it raises it. -/
theorem LastRaise.append_singleton (h : LastRaise hit value v rs o) (r : ι) :
    LastRaise hit value v (rs ++ [r])
      (if hit r ∧ shown hit value v rs < value r then some r else o) := by
  split
  · next hr => exact ⟨rs, [], rfl, hr.1, hr.2, by simp⟩
  · next hr =>
    have hle : hit r → value r ≤ (o.map value).getD v := fun hhit =>
      h.shown_eq ▸ not_lt.mp fun hlt => hr ⟨hhit, hlt⟩
    cases o with
    | none =>
      intro r' hmem hr'
      rcases List.mem_append.mp hmem with hmem | hmem
      · exact h r' hmem hr'
      · obtain rfl := List.mem_singleton.mp hmem
        exact hle hr'
    | some r₀ =>
      obtain ⟨before, after, rfl, hr₀, hraise, hafter⟩ := h
      refine ⟨before, after ++ [r], by simp, hr₀, hraise, fun r' hmem hr' => ?_⟩
      rcases List.mem_append.mp hmem with hmem | hmem
      · exact hafter r' hmem hr'
      · obtain rfl := List.mem_singleton.mp hmem
        exact hle hr'

end LastRaise

variable (own : ι → Prop)

/-- Only readings of a kind raise the meter. -/
def RaisedBy (v : α) (rs : List ι) : Prop :=
  ∀ before r after, rs = before ++ r :: after → hit r → shown hit value v before < value r → own r

/-- The readings of another kind are not above the start value, or not above a reading of
the kind before them. -/
def Covered (v : α) (rs : List ι) : Prop :=
  ∀ before r after, rs = before ++ r :: after → hit r → ¬own r →
    value r ≤ v ∨ ∃ r' ∈ before, hit r' ∧ own r' ∧ value r ≤ value r'

variable {hit value own}

/-- As long as only readings of a kind raise it, a meter shows the start value or one of
them. -/
theorem RaisedBy.shown_mem {v : α} {rs : List ι} (h : RaisedBy hit value own v rs) :
    shown hit value v rs = v ∨ ∃ r ∈ rs, hit r ∧ own r ∧ shown hit value v rs = value r := by
  induction rs using List.reverseRecOn with
  | nil => exact Or.inl rfl
  | append_singleton rs r ih =>
    have hrs : RaisedBy hit value own v rs := by
      rintro before r' after rfl
      exact h before r' (after ++ [r]) (by simp)
    have hkept := ih hrs
    rw [shown_append_singleton]
    split
    · next hr =>
      rcases le_or_gt (value r) (shown hit value v rs) with hle | hlt
      · rw [max_eq_left hle]
        rcases hkept with heq | ⟨r', hmem, hr', hown, heq⟩
        · exact Or.inl heq
        · exact Or.inr ⟨r', List.mem_append_left _ hmem, hr', hown, heq⟩
      · exact Or.inr ⟨r, by simp, hr, h rs r [] rfl hr hlt, max_eq_right hlt.le⟩
    · rcases hkept with heq | ⟨r', hmem, hr', hown, heq⟩
      · exact Or.inl heq
      · exact Or.inr ⟨r', List.mem_append_left _ hmem, hr', hown, heq⟩

/-- **Only readings of a kind raise the meter** exactly when the others are covered. -/
theorem raisedBy_iff {v : α} {rs : List ι} :
    RaisedBy hit value own v rs ↔ Covered hit value own v rs := by
  constructor
  · rintro h before r after rfl hr hother
    have hbefore : RaisedBy hit value own v before := by
      rintro before' r' after' rfl
      exact h before' r' (after' ++ r :: after) (by simp)
    have hle : value r ≤ shown hit value v before :=
      not_lt.mp fun hlt => hother (h before r after rfl hr hlt)
    rcases hbefore.shown_mem with heq | ⟨r', hmem, hr', hown, heq⟩
    · exact Or.inl (heq ▸ hle)
    · exact Or.inr ⟨r', hmem, hr', hown, heq ▸ hle⟩
  · rintro h before r after rfl hr hlt
    by_contra hother
    rcases h before r after rfl hr hother with hle | ⟨r', hmem, hr', -, hle⟩
    · exact absurd (hlt.trans_le hle) (not_lt.mpr (le_shown hit value v before))
    · exact absurd (hlt.trans_le hle) (not_lt.mpr (value_le_shown hit value v hmem hr'))

end Meter
