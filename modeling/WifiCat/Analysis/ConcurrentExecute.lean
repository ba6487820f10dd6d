import WifiCat.Model.ExecuteThreads

/-!
# Overlapping calls of execute()

Calls that overlap share one `SIGCHLD` disposition, and each restores what it found.  As long
as the call that found the handler is the last of the overlapping ones to finish, no call is
disturbed: the disposition stays `SIG_DFL` while a child exists, so that nobody but the call
itself waits for it.
-/

set_option autoImplicit false

namespace WifiCat.Analysis

open Transition WifiCat.Signals

variable {n : ℕ}

/-- What every call can expect: the status of a child that exits is what the call returns,
and the handler is in place when no call is in progress. -/
def Undisturbed (p : Process n) : Prop :=
  (∀ r ∈ p.returned, ∀ status, r.1 = .exited status → r.2 = status) ∧
    ((∀ i, p.call i = .idle) → p.disposition = .sigchld_handler)

/-- A call that restores the handler is then the only one in progress. -/
def RestoresLast (p : Process n) : Signals.Event n → Prop
  | .restore i => (p.call i).oldsa = some .sigchld_handler → ∀ j, j ≠ i → p.call j = .idle
  | _ => True

instance (p : Process n) (e : Signals.Event n) : Decidable (RestoresLast p e) := by
  cases e <;> unfold RestoresLast <;> infer_instance

/-- The process after start-up: the handler installed, no call in progress.
SOURCE: gateway.c:170-177 -/
def started (p : Process n) : Prop := p = {}

/-- What a call in progress has not suffered: its child was not reaped behind its back, and
the value it will return is that of its child. -/
def CallSound : Call → Prop
  | .forked _ (.reaped _) => False
  | .waited _ status retval => retval = status.retval
  | _ => True

/-- The state of the process as long as calls nest. -/
structure Nested (p : Process n) : Prop where
  quiet : p.pending = false ∧ p.handling = 0
  sound : ∀ i, CallSound (p.call i)
  results : ∀ r ∈ p.returned, r.2 = r.1.retval
  owner : (p.disposition = .sigchld_handler ∧ ∀ i, p.call i = .idle) ∨
    (p.disposition = .SIG_DFL ∧ ∃ i, (p.call i).oldsa = some .sigchld_handler ∧
      ∀ j, j ≠ i → (p.call j).oldsa ≠ some .sigchld_handler)

theorem Nested.undisturbed {p : Process n} (h : Nested p) : Undisturbed p := by
  constructor
  · rintro ⟨ended, retval⟩ hr status hstatus
    have hret := h.results _ hr
    dsimp only at hstatus hret
    rw [hret, hstatus]
    rfl
  · intro hidle
    rcases h.owner with ⟨hd, -⟩ | ⟨-, i, hi, -⟩
    · exact hd
    · rw [hidle i] at hi
      cases hi

/-- While a call is in progress the disposition is `SIG_DFL`. -/
theorem Nested.dfl_of_call {p : Process n} (h : Nested p) {i : Fin n} (hi : p.call i ≠ .idle) :
    p.disposition = .SIG_DFL ∧ ∃ i, (p.call i).oldsa = some .sigchld_handler ∧
      ∀ j, j ≠ i → (p.call j).oldsa ≠ some .sigchld_handler := by
  rcases h.owner with ⟨-, hidle⟩ | howner
  · exact absurd (hidle i) hi
  · exact howner

/-- A step of a call that keeps the disposition it saved. -/
theorem Nested.setCall {p : Process n} (h : Nested p) {i : Fin n} {c : Call}
    (hi : p.call i ≠ .idle) (hold : c.oldsa = (p.call i).oldsa) (hsound : CallSound c) :
    Nested (p.setCall i c) := by
  have hcall : ∀ j, ((p.setCall i c).call j).oldsa = (p.call j).oldsa := by
    intro j
    rcases eq_or_ne j i with rfl | hne
    · rw [p.setCall_self, hold]
    · rw [p.setCall_of_ne c hne]
  refine ⟨h.quiet, ?_, h.results, ?_⟩
  · intro j
    rcases eq_or_ne j i with rfl | hne
    · rwa [p.setCall_self]
    · rw [p.setCall_of_ne c hne]
      exact h.sound j
  · obtain ⟨hd, k, hk, hothers⟩ := h.dfl_of_call hi
    refine Or.inr ⟨hd, k, ?_, ?_⟩
    · rw [hcall, hk]
    · intro j hj
      rw [hcall]
      exact hothers j hj

/-- A call begins: if it is the first it saves the handler, otherwise `SIG_DFL`. -/
theorem Nested.saveAndDefault {p : Process n} (h : Nested p) {i : Fin n}
    (hi : p.call i = .idle) :
    Nested ((p.setCall i (.defaulted p.disposition)).sigaction .SIG_DFL) := by
  obtain ⟨⟨hpending, hhandling⟩, hsound, hresults, howner⟩ := h
  refine ⟨⟨Bool.and_false _, hhandling⟩, ?_, hresults, Or.inr ⟨rfl, ?_⟩⟩
  · intro j
    rcases eq_or_ne j i with rfl | hne
    · show CallSound ((p.setCall j _).call j)
      rw [p.setCall_self]
      trivial
    · show CallSound ((p.setCall i _).call j)
      rw [p.setCall_of_ne _ hne]
      exact hsound j
  · rcases howner with ⟨hd, hidle⟩ | ⟨hd, k, hk, hothers⟩
    · refine ⟨i, ?_, ?_⟩
      · show ((p.setCall i _).call i).oldsa = _
        rw [p.setCall_self, hd]
        rfl
      · intro j hj
        show ((p.setCall i _).call j).oldsa ≠ _
        rw [p.setCall_of_ne _ hj, hidle j]
        exact nofun
    · have hki : k ≠ i := by
        rintro rfl
        rw [hi] at hk
        cases hk
      refine ⟨k, ?_, ?_⟩
      · show ((p.setCall i _).call k).oldsa = _
        rw [p.setCall_of_ne _ hki, hk]
      · intro j hj
        rcases eq_or_ne j i with rfl | hne
        · show ((p.setCall j _).call j).oldsa ≠ _
          rw [p.setCall_self, hd]
          exact nofun
        · show ((p.setCall i _).call j).oldsa ≠ _
          rw [p.setCall_of_ne _ hne]
          exact hothers j hj

/-- A call ends; if it puts the handler back it is the last one in progress. -/
theorem Nested.restore {p : Process n} (h : Nested p) {i : Fin n} {oldsa : Disposition}
    {status : ExitStatus} {retval : ℤ} (hi : p.call i = .waited oldsa status retval)
    (hlast : oldsa = .sigchld_handler → ∀ j, j ≠ i → p.call j = .idle) :
    Nested { (p.setCall i .idle).sigaction oldsa with
      returned := p.returned ++ [(status, retval)] } := by
  have hne : p.call i ≠ .idle := by
    rw [hi]
    exact nofun
  obtain ⟨hd, k, hk, hothers⟩ := h.dfl_of_call hne
  have hretval : retval = status.retval := by
    have hs := h.sound i
    rwa [hi] at hs
  refine ⟨⟨?_, h.quiet.2⟩, ?_, ?_, ?_⟩
  · show (p.pending && _) = false
    rw [h.quiet.1, Bool.false_and]
  · intro j
    show CallSound ((p.setCall i .idle).call j)
    rcases eq_or_ne j i with rfl | hji
    · rw [p.setCall_self]
      trivial
    · rw [p.setCall_of_ne _ hji]
      exact h.sound j
  · intro r hr
    rcases List.mem_append.mp hr with hr | hr
    · exact h.results r hr
    · rw [List.mem_singleton.mp hr]
      exact hretval
  · cases oldsa with
    | sigchld_handler =>
      refine Or.inl ⟨rfl, ?_⟩
      intro j
      show (p.setCall i .idle).call j = .idle
      rcases eq_or_ne j i with rfl | hji
      · exact p.setCall_self _ _
      · rw [p.setCall_of_ne _ hji]
        exact hlast rfl j hji
    | SIG_DFL =>
      have hki : k ≠ i := by
        rintro rfl
        rw [hi] at hk
        cases hk
      refine Or.inr ⟨rfl, k, ?_, ?_⟩
      · show ((p.setCall i .idle).call k).oldsa = _
        rw [p.setCall_of_ne _ hki, hk]
      · intro j hj
        show ((p.setCall i .idle).call j).oldsa ≠ _
        rcases eq_or_ne j i with rfl | hji
        · rw [p.setCall_self]
          exact nofun
        · rw [p.setCall_of_ne _ hji]
          exact hothers j hj

/-- INTERNAL: a step after which the handler is back only when no call is in progress keeps
the calls nested.  No signal is ever pending, so the handler never runs. -/
theorem Nested.step {p p' : Process n} {e : Signals.Event n} (h : Nested p) (hok : RestoresLast p e)
    (hstep : p.step e = some p') : Nested p' := by
  cases e with
  | saveAndDefault i =>
    simp only [Process.step] at hstep
    split at hstep
    · next hi =>
      rw [← Option.some.inj hstep]
      exact h.saveAndDefault hi
    · cases hstep
  | fork i =>
    simp only [Process.step] at hstep
    split at hstep
    · next oldsa hi =>
      rw [← Option.some.inj hstep]
      exact h.setCall (by rw [hi]; exact nofun) (by rw [hi]; rfl) trivial
    · cases hstep
  | childExit i status =>
    simp only [Process.step] at hstep
    split at hstep
    · next oldsa hi =>
      have hne : p.call i ≠ .idle := by
        rw [hi]
        exact nofun
      have hpending : (p.pending || p.disposition == .sigchld_handler) = p.pending := by
        rw [(h.dfl_of_call hne).1]
        exact Bool.or_false _
      rw [← Option.some.inj hstep, hpending]
      exact h.setCall hne (by rw [hi]; rfl) trivial
    · cases hstep
  | deliver =>
    simp only [Process.step, h.quiet.1, Bool.false_and, Bool.false_eq_true, if_false,
      reduceCtorEq] at hstep
  | reap victim =>
    cases victim with
    | none => simp [Process.step, h.quiet.2] at hstep
    | some i =>
      simp only [Process.step] at hstep
      split at hstep
      · next hk =>
        rw [h.quiet.2] at hk
        cases hk
      · cases hstep
  | waitpid i =>
    simp only [Process.step] at hstep
    split at hstep
    · next oldsa status hi =>
      rw [← Option.some.inj hstep]
      exact h.setCall (by rw [hi]; exact nofun) (by rw [hi]; rfl) rfl
    · next oldsa status hi =>
      -- the handler has not run, so no child is missing
      have hs := h.sound i
      rw [hi] at hs
      exact hs.elim
    · cases hstep
  | restore i =>
    simp only [Process.step] at hstep
    split at hstep
    · next oldsa status retval hi =>
      rw [← Option.some.inj hstep]
      refine h.restore hi ?_
      intro hold
      exact hok (by rw [hi, hold]; rfl)
    · cases hstep

/-- **Concurrent calls do not disturb each other**: in every run of any number of threads in which
the handler is put back only by the last of the calls in progress, every call returns the status
of its child, and the handler is in place whenever no call is in progress.
SOURCE: util.c:94-159, gateway.c:90-121 -/
theorem execute_undisturbed (n : ℕ) (p : Process n)
    (h : Reach Process.step RestoresLast started p) : Undisturbed p := by
  refine Nested.undisturbed (h.invariant ?_ ?_)
  · rintro p rfl
    exact ⟨⟨rfl, rfl⟩, fun i => trivial, fun r hr => absurd hr List.not_mem_nil,
      Or.inl ⟨rfl, fun i => rfl⟩⟩
  · intro p e p' hp hok hstep
    exact hp.step hok hstep

/-- Two calls, the second within the first, with children that exit with 1 and 2. -/
def nestedCalls : List (Signals.Event 2) :=
  [.saveAndDefault 0, .fork 0, .saveAndDefault 1, .fork 1, .childExit 0 (.exited 1),
    .childExit 1 (.exited 2), .waitpid 1, .restore 1, .waitpid 0, .restore 0]

theorem execute_undisturbed_nested :
    ∃ p : Process 2, Reach Process.step RestoresLast started p ∧
      p.returned = [(.exited 2, 2), (.exited 1, 1)] ∧ Undisturbed p := by
  obtain ⟨p, hp⟩ : ∃ p, run Process.step RestoresLast nestedCalls ({} : Process 2) = some p :=
    Option.isSome_iff_exists.mp (by decide +kernel)
  have hreturned : (run Process.step RestoresLast nestedCalls ({} : Process 2)).map
      Process.returned = some [(.exited 2, 2), (.exited 1, 1)] := by
    decide +kernel
  rw [hp] at hreturned
  have hreach : Reach Process.step RestoresLast started p :=
    Reach.of_run nestedCalls (Reach.start rfl) hp
  exact ⟨p, hreach, Option.some.inj hreturned, execute_undisturbed 2 p hreach⟩

/-- Two calls that overlap without nesting: the first to begin puts the handler back while
the second still waits for its child, which the handler then reaps. -/
def overlappingCalls : List (Signals.Event 2) :=
  [.saveAndDefault 0, .fork 0, .saveAndDefault 1, .fork 1, .childExit 0 (.exited 0),
    .waitpid 0, .restore 0, .childExit 1 (.exited 2), .deliver, .reap (some 1), .waitpid 1,
    .restore 1]

/-- A call whose child exits with status 2 returns 0, and the process is left without the
handler. -/
theorem execute_disturbed :
    ∃ p : Process 2, Reach Process.step (fun _ _ => True) started p ∧
      (ExitStatus.exited 2, 0) ∈ p.returned ∧ (∀ i, p.call i = .idle) ∧
      p.disposition = .SIG_DFL ∧ ¬Undisturbed p := by
  obtain ⟨p, hp⟩ : ∃ p, run Process.step (fun _ _ => True) overlappingCalls
      ({} : Process 2) = some p :=
    Option.isSome_iff_exists.mp (by decide +kernel)
  have hend : (run Process.step (fun _ _ => True) overlappingCalls ({} : Process 2)).map
      (fun p => decide ((ExitStatus.exited 2, 0) ∈ p.returned ∧ (∀ i, p.call i = .idle) ∧
        p.disposition = .SIG_DFL)) = some true := by
    decide +kernel
  rw [hp, Option.map_some, Option.some.injEq, decide_eq_true_eq] at hend
  obtain ⟨hreturned, hidle, hdfl⟩ := hend
  refine ⟨p, Reach.of_run overlappingCalls (Reach.start rfl) hp, hreturned, hidle, hdfl, ?_⟩
  intro hund
  have hhandler := hund.2 hidle
  rw [hdfl] at hhandler
  cases hhandler

end WifiCat.Analysis
