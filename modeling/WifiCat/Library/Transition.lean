import Mathlib.Logic.Relation
import Mathlib.Tactic

/-!
# Transition systems with a condition on the steps

A step takes a state and an event to the next state, if the event is possible there.
`Reach` collects the states of the runs all of whose steps meet a condition; an invariant of
the steps holds in every such state.  `run` plays a list of events, checking the condition.
-/

set_option autoImplicit false

namespace Transition

variable {σ ε : Type} {step : σ → ε → Option σ} {ok ok' : σ → ε → Prop} {start : σ → Prop}

/-- The states reached from a start by steps that `ok` admits. -/
inductive Reach (step : σ → ε → Option σ) (ok : σ → ε → Prop) (start : σ → Prop) : σ → Prop
  | start {s : σ} (h : start s) : Reach step ok start s
  | step {s s' : σ} (e : ε) (h : Reach step ok start s) (hok : ok s e)
      (hstep : step s e = some s') : Reach step ok start s'

/-- A property of the starts that the admitted steps preserve holds in every state reached. -/
theorem Reach.invariant {I : σ → Prop} (hstart : ∀ s, start s → I s)
    (hstep : ∀ s e s', I s → ok s e → step s e = some s' → I s') {s : σ}
    (h : Reach step ok start s) : I s := by
  induction h with
  | start h => exact hstart _ h
  | step e _ hok hs ih => exact hstep _ e _ ih hok hs

/-- The state after the events, each of which must be possible and admitted. -/
def run (step : σ → ε → Option σ) (ok : σ → ε → Prop) [∀ s e, Decidable (ok s e)] :
    List ε → σ → Option σ
  | [], s => some s
  | e :: es, s => if ok s e then (step s e).bind (run step ok es) else none

/-- A list of events that can be played leads to a state that is reached. -/
theorem Reach.of_run [∀ s e, Decidable (ok s e)] (es : List ε) {s s' : σ}
    (h : Reach step ok start s) (hrun : run step ok es s = some s') :
    Reach step ok start s' := by
  induction es generalizing s with
  | nil =>
    rw [run, Option.some.injEq] at hrun
    exact hrun ▸ h
  | cons e es ih =>
    rw [run] at hrun
    split at hrun
    · next hok =>
      obtain ⟨t, hstep, hrest⟩ := Option.bind_eq_some_iff.mp hrun
      exact ih (h.step e hok hstep) hrest
    · cases hrun

end Transition
