import WifiCat.Library.CommandProgram

/-!
# What a run has asked and been answered

The transcript of a run is the list of its questions with the answers to them, in order.  That
of a sequence is the transcript of the first program and then that of the second, which starts
from where the first one has left the world (`transcript_bind`).
-/

set_option autoImplicit false

namespace CommandProgram

namespace Prog

variable {E : Type} {R : E → Type} {α β σ : Type} (h : (e : E) → σ → R e × σ)

/-- The questions of a run with their answers. -/
def transcript : Prog E R α → σ → List ((e : E) × R e)
  | .done _, _ => []
  | .ask e k, s => ⟨e, (h e s).1⟩ :: transcript (k (h e s).1) (h e s).2

@[simp] theorem transcript_done (a : α) (s : σ) : transcript h (.done a : Prog E R α) s = [] := rfl

@[simp] theorem transcript_question (e : E) (s : σ) :
    transcript h (question e : Prog E R _) s = [⟨e, (h e s).1⟩] := rfl

/-- **Sequencing**. -/
theorem transcript_bind (p : Prog E R α) (f : α → Prog E R β) (s : σ) :
    transcript h (p >>= f) s =
      transcript h p s ++ transcript h (f (run h p s).1) (run h p s).2 := by
  induction p generalizing s with
  | done a => rfl
  | ask e k ih => exact congrArg (List.cons _) (ih _ _)

end Prog

end CommandProgram
