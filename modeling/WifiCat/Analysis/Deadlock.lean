import WifiCat.Model.Locking

/-!
# Threads that wait for each other

Every function takes `client_list_mutex` before `config_mutex`, and gives back what it takes.
The termination handler takes `config_mutex` wherever a signal finds the thread: the threads
never deadlock as long as it does not begin on one that holds `config_mutex`, and deadlock at
once when it does.
-/

set_option autoImplicit false

namespace WifiCat.Analysis

open LockOrder Transition WifiCat.Locking

variable {n : ℕ}

/-- The order in which the mutexes are taken. -/
def lockRank : Mutex → ℕ
  | .client_list_mutex => 0
  | .config_mutex => 1

/-- The first termination handler begins on a thread that does not hold `config_mutex`. -/
def SignalOutsideConfig (p : Process n) : Locking.Event n → Prop
  | .signal i => p.sigterm_mutex = false → Mutex.config_mutex ∉ (p.threads i).held
  | .run _ _ => True

instance (p : Process n) (e : Locking.Event n) : Decidable (SignalOutsideConfig p e) := by
  cases e <;> unfold SignalOutsideConfig <;> infer_instance

/-- Every entry point keeps the order and ends without a mutex. -/
theorem code_after (entry : EntryPoint) : entry.code.after lockRank ∅ = some ∅ := by
  cases entry with
  | ndsctl handler =>
    cases handler with
    | mac request => cases request <;> decide +kernel
    | _ => decide +kernel
  | _ => decide +kernel

/-- The termination handler gives back what it takes, where it may begin. -/
theorem terminationHandler_after {held : Finset Mutex} (h : Mutex.config_mutex ∉ held) :
    terminationHandler.after lockRank held = some held := by
  have hbefore : ∀ k ∈ held, lockRank k < lockRank .config_mutex := by
    intro k hk
    cases k with
    | client_list_mutex => exact Nat.zero_lt_one
    | config_mutex => exact absurd hk h
  have hlock : (Code.lock Mutex.config_mutex).after lockRank held =
      some (insert .config_mutex held) := if_pos hbefore
  have hunlock : (Code.unlock Mutex.config_mutex).after lockRank (insert .config_mutex held) =
      some held := by
    rw [Code.after, if_pos (Finset.mem_insert_self _ _), Finset.erase_insert h]
  simp only [terminationHandler, Locking.iptablesFwDestroy, holding, block, List.foldr_cons,
    List.foldr_nil, Code.after_seq, Code.after_skip, Code.after_exit, hlock, hunlock,
    Option.bind_some]

/-- Replacing one thread by one that keeps the order. -/
theorem ordered_setThread {p : Process n} {i : Fin n} {t : Thread Mutex}
    (h : ∀ j, (p.threads j).Ordered lockRank) (ht : t.Ordered lockRank) (j : Fin n) :
    ((p.setThread i t).threads j).Ordered lockRank := by
  show (Function.update p.threads i t j).Ordered lockRank
  rcases eq_or_ne j i with rfl | hne
  · rwa [Function.update_self]
  · rw [Function.update_of_ne hne]
    exact h j

/-- INTERNAL: a step keeps the order, unless the termination handler begins on a thread that
holds `config_mutex`. -/
theorem ordered_step {p p' : Process n} {e : Locking.Event n}
    (h : ∀ i, (p.threads i).Ordered lockRank) (hok : SignalOutsideConfig p e)
    (hstep : p.step e = some p') : ∀ i, (p'.threads i).Ordered lockRank := by
  cases e with
  | run i turn =>
    simp only [Process.step, Process.runStep] at hstep
    split at hstep
    · split at hstep
      · -- the process ends
        rw [← Option.some.inj hstep]
        exact fun _ => rfl
      · obtain ⟨t, ht, hp⟩ := Option.map_eq_some_iff.mp hstep
        rw [← hp]
        exact ordered_setThread h ((h i).step ht)
    · cases hstep
  | signal i =>
    simp only [Process.step, Process.signal] at hstep
    split at hstep
    · split at hstep
      · cases hstep
      · split at hstep
        · rw [← Option.some.inj hstep]
          exact ordered_setThread h rfl
        · next hfirst =>
          rw [← Option.some.inj hstep]
          have hfree : Mutex.config_mutex ∉ (p.threads i).held := hok (by simpa using hfirst)
          exact ordered_setThread h ((h i).push (terminationHandler_after hfree))
    · cases hstep

/-- A termination handler that begins on a thread holding `config_mutex` waits for that
thread. -/
theorem deadlocked_of_signal {p p' : Process n} {i : Fin n} (hfirst : p.sigterm_mutex = false)
    (hheld : Mutex.config_mutex ∈ (p.threads i).held)
    (hstep : p.step (.signal i) = some p') : Deadlocked p'.threads := by
  simp only [Process.step, Process.signal, hfirst, Bool.false_eq_true, if_false] at hstep
  split at hstep
  · split at hstep
    · cases hstep
    · rw [← Option.some.inj hstep]
      refine ⟨i, Relation.TransGen.single ⟨.config_mutex, ?_, ?_⟩⟩
      · show (Function.update p.threads i _ i).wants = _
        rw [Function.update_self]
        rfl
      · show _ ∈ (Function.update p.threads i _ i).held
        rw [Function.update_self]
        exact hheld
  · cases hstep

/-- **No threads wait for each other** in every run of any number of threads in which the
termination handler never begins on a thread that holds `config_mutex`; and from any state of such
a run, a step keeps it so exactly when it meets the condition.
SOURCE: gateway.c:125-155, fw_iptables.c:611-626 -/
theorem no_deadlock_iff (n : ℕ) (p : Process n)
    (h : Reach Process.step SignalOutsideConfig Locking.started p) :
    ¬Deadlocked p.threads ∧
      ∀ e p', p.step e = some p' → (¬Deadlocked p'.threads ↔ SignalOutsideConfig p e) := by
  have hordered : ∀ i, (p.threads i).Ordered lockRank := by
    refine Reach.invariant (I := fun p => ∀ i, (p.threads i).Ordered lockRank) ?_ ?_ h
    · rintro p ⟨entry, rfl⟩ i
      exact Thread.ordered_cons.mpr ⟨∅, code_after (entry i), rfl⟩
    · intro p e p' hp hok hstep
      exact ordered_step hp hok hstep
  refine ⟨not_deadlocked hordered, ?_⟩
  intro e p' hstep
  constructor
  · intro hfree
    cases e with
    | run i turn => trivial
    | signal i =>
      intro hfirst hheld
      exact hfree (deadlocked_of_signal hfirst hheld hstep)
  · intro hok
    exact not_deadlocked (ordered_step hordered hok hstep)

/-- Two threads: `ndsctl block`, and the timer. -/
def twoThreads : Process 2 :=
  { threads := fun i => { code := [(![EntryPoint.ndsctl (.mac .block),
      .thread_client_timeout_check] i).code] } }

theorem started_twoThreads : Locking.started twoThreads :=
  ⟨![EntryPoint.ndsctl (.mac .block), .thread_client_timeout_check], rfl⟩

/-- `ndsctl_block` has taken `config_mutex`. -/
def blockRuns : List (Locking.Event 2) :=
  List.replicate 2 (.run ⟨0, Nat.zero_lt_two⟩ true)

/-- A signal that finds the timer waits for `ndsctl_block` like everybody else. -/
theorem no_deadlock_iff_timer :
    ∃ p : Process 2, p.sigterm_mutex = true ∧ Mutex.config_mutex ∈ (p.threads 0).held ∧
      ¬Deadlocked p.threads := by
  obtain ⟨p, hp⟩ : ∃ p, run Process.step SignalOutsideConfig (blockRuns ++ [.signal 1])
      twoThreads = some p := Option.isSome_iff_exists.mp (by decide +kernel)
  have hend : (run Process.step SignalOutsideConfig (blockRuns ++ [.signal 1]) twoThreads).map
      (fun p => decide (p.sigterm_mutex = true ∧ Mutex.config_mutex ∈ (p.threads 0).held)) =
      some true := by
    decide +kernel
  rw [hp, Option.map_some, Option.some.injEq, decide_eq_true_eq] at hend
  exact ⟨p, hend.1, hend.2,
    (no_deadlock_iff 2 p (Reach.of_run _ (Reach.start started_twoThreads) hp)).1⟩

/-- A signal that finds `ndsctl_block` makes its thread wait for itself. -/
theorem deadlock_block :
    ∃ p : Process 2, Reach Process.step (fun _ _ => True) Locking.started p ∧
      (p.threads 0).wants = some .config_mutex ∧ Mutex.config_mutex ∈ (p.threads 0).held ∧
      Deadlocked p.threads := by
  obtain ⟨p, hp⟩ : ∃ p, run Process.step (fun _ _ => True) (blockRuns ++ [.signal 0])
      twoThreads = some p := Option.isSome_iff_exists.mp (by decide +kernel)
  have hend : (run Process.step (fun _ _ => True) (blockRuns ++ [.signal 0]) twoThreads).map
      (fun p => decide ((p.threads 0).wants = some .config_mutex ∧
        Mutex.config_mutex ∈ (p.threads 0).held)) = some true := by
    decide +kernel
  rw [hp, Option.map_some, Option.some.injEq, decide_eq_true_eq] at hend
  exact ⟨p, Reach.of_run _ (Reach.start started_twoThreads) hp, hend.1, hend.2,
    ⟨0, Relation.TransGen.single ⟨.config_mutex, hend.1, hend.2⟩⟩⟩

end WifiCat.Analysis
