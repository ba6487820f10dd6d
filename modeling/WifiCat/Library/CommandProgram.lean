import Mathlib.Tactic

/-!
# Programs that run commands

A `Prog E R α` puts questions of type `E` to the world outside it (a command to run, a
listing to read), goes on with the answers, and ends in a value of type `α`.  A handler
answers a question from a state of the world and says how the world changes; `run` is
the run of a program to its end, `runFor n` the state of the world when the program is
stopped after `n` questions.

`Always Q P` says that whatever the answers are, every question satisfies `Q` and every
end value `P`.  It is closed under sequencing (`always_bind`, `always_foldlM`), and a
property of the world that the answers to `Q`-questions keep is kept by a complete or a
stopped run (`run_invariant`, `runFor_invariant`).

`Along effect p l` says that whatever the answers are, the effects of the program are a
sublist of `l`, in its order; so are those of every stopped run (`exists_sublist`).
-/

set_option autoImplicit false

namespace CommandProgram

/-- A program: it is done, or asks and goes on with the answer. -/
inductive Prog (E : Type) (R : E → Type) (α : Type)
  | done (a : α)
  | ask (e : E) (k : R e → Prog E R α)

variable {E : Type} {R : E → Type} {α β σ ι : Type}

namespace Prog

/-- One program after the other. -/
def bind : Prog E R α → (α → Prog E R β) → Prog E R β
  | .done a, f => f a
  | .ask e k, f => .ask e fun r => (k r).bind f

instance : Monad (Prog E R) where
  pure := .done
  bind := Prog.bind

@[simp] theorem pure_eq (a : α) : (pure a : Prog E R α) = .done a := rfl

@[simp] theorem done_bind (a : α) (f : α → Prog E R β) : (Prog.done a >>= f) = f a := rfl

@[simp] theorem map_done (f : α → β) (a : α) : f <$> (Prog.done a : Prog E R α) = .done (f a) := rfl

@[simp] theorem ask_bind (e : E) (k : R e → Prog E R α) (f : α → Prog E R β) :
    (Prog.ask e k >>= f) = .ask e fun r => k r >>= f := rfl

instance : LawfulMonad (Prog E R) := by
  refine LawfulMonad.mk' (Prog E R) ?_ (fun _ _ => rfl) ?_
  · intro α x
    change Prog.bind x (fun a => .done a) = x
    induction x with
    | done a => rfl
    | ask e k ih => exact congrArg (Prog.ask e) (funext ih)
  · intro α β γ x f g
    change (x.bind f).bind g = x.bind fun a => (f a).bind g
    induction x with
    | done a => rfl
    | ask e k ih => exact congrArg (Prog.ask e) (funext ih)

/-- A question as a program that ends in its answer. -/
def question (e : E) : Prog E R (R e) := .ask e .done

/-- Run a program to its end. -/
def run (h : (e : E) → σ → R e × σ) : Prog E R α → σ → α × σ
  | .done a, s => (a, s)
  | .ask e k, s => run h (k (h e s).1) (h e s).2

/-- The number of questions of a run. -/
def questions (h : (e : E) → σ → R e × σ) : Prog E R α → σ → ℕ
  | .done _, _ => 0
  | .ask e k, s => questions h (k (h e s).1) (h e s).2 + 1

/-- The world when a program is stopped after at most `n` questions. -/
def runFor (h : (e : E) → σ → R e × σ) : ℕ → Prog E R α → σ → σ
  | 0, _, s => s
  | _ + 1, .done _, s => s
  | n + 1, .ask e k, s => runFor h n (k (h e s).1) (h e s).2

/-- The questions of a run, in order. -/
def asked (h : (e : E) → σ → R e × σ) : Prog E R α → σ → List E
  | .done _, _ => []
  | .ask e k, s => e :: asked h (k (h e s).1) (h e s).2

section Runs

variable (h : (e : E) → σ → R e × σ)

@[simp] theorem run_done (a : α) (s : σ) : run h (.done a : Prog E R α) s = (a, s) := rfl

@[simp] theorem run_question (e : E) (s : σ) : run h (question e) s = h e s := rfl

/-- The second program runs from where the first one ended. -/
@[simp] theorem run_bind (p : Prog E R α) (f : α → Prog E R β) (s : σ) :
    run h (p >>= f) s = run h (f (run h p s).1) (run h p s).2 := by
  induction p generalizing s with
  | done a => rfl
  | ask e k ih => exact ih _ _

@[simp] theorem run_map (g : α → β) (p : Prog E R α) (s : σ) :
    run h (g <$> p) s = (g (run h p s).1, (run h p s).2) := by
  rw [map_eq_pure_bind, run_bind]
  rfl

/-- A loop over a list is the fold of the runs of its body. -/
theorem run_foldlM (f : β → ι → Prog E R β) (l : List ι) (b : β) (s : σ) :
    run h (l.foldlM f b) s = l.foldl (fun bs i => run h (f bs.1 i) bs.2) (b, s) := by
  induction l generalizing b s with
  | nil => rfl
  | cons i l ih =>
    rw [List.foldlM_cons, run_bind, ih]
    rfl

/-- Stopped before the first program has asked its last question, a sequence is stopped
in its first program; otherwise in its second. -/
theorem runFor_bind (p : Prog E R α) (f : α → Prog E R β) (n : ℕ) (s : σ) :
    runFor h n (p >>= f) s =
      if n < questions h p s then runFor h n p s
      else runFor h (n - questions h p s) (f (run h p s).1) (run h p s).2 := by
  induction p generalizing n s with
  | done a => simp [questions]
  | ask e k ih =>
    cases n with
    | zero => simp [runFor, questions]
    | succ n =>
      simp only [ask_bind, runFor, questions, run]
      rw [ih]
      simp only [Nat.add_lt_add_iff_right, Nat.add_sub_add_right]

end Runs

/-- Whatever the answers, every question satisfies `Q` and the end value satisfies `P`. -/
def Always (Q : E → Prop) (P : α → Prop) : Prog E R α → Prop
  | .done a => P a
  | .ask e k => Q e ∧ ∀ r, Always Q P (k r)

section Always

variable {Q Q' : E → Prop} {P P' : α → Prop} {P'' : β → Prop}

@[simp] theorem always_done (a : α) : Always Q P (.done a : Prog E R α) ↔ P a := Iff.rfl

/-- **Sequencing**: the second program may rely on what the first one ends in. -/
theorem always_bind {p : Prog E R α} {f : α → Prog E R β} (hp : Always Q P p)
    (hf : ∀ a, P a → Always Q P'' (f a)) : Always Q P'' (p >>= f) := by
  induction p with
  | done a => exact hf a hp
  | ask e k ih => exact ⟨hp.1, fun r => ih r (hp.2 r)⟩

theorem always_mono {p : Prog E R α} (hp : Always Q P p) (hQ : ∀ e, Q e → Q' e)
    (hP : ∀ a, P a → P' a) : Always Q' P' p := by
  induction p with
  | done a => exact hP a hp
  | ask e k ih => exact ⟨hQ e hp.1, fun r => ih r (hp.2 r)⟩

theorem always_trivial (p : Prog E R α) : Always (fun _ => True) (fun _ => True) p := by
  induction p with
  | done a => trivial
  | ask e k ih => exact ⟨trivial, ih⟩

/-- A loop whose body keeps an invariant. -/
theorem always_foldlM {f : β → ι → Prog E R β} {l : List ι} {b : β} (hb : P'' b)
    (hf : ∀ b, P'' b → ∀ i ∈ l, Always Q P'' (f b i)) : Always Q P'' (l.foldlM f b) := by
  induction l generalizing b with
  | nil => exact hb
  | cons i l ih =>
    rw [List.foldlM_cons]
    refine always_bind (hf b hb i (by simp)) fun b' hb' => ?_
    exact ih hb' fun c hc j hj => hf c hc j (List.mem_cons_of_mem _ hj)

variable {h : (e : E) → σ → R e × σ} {I : σ → Prop}

/-- Every question of every run satisfies `Q`. -/
theorem forall_asked {p : Prog E R α} (hp : Always Q P p) (s : σ) :
    ∀ e ∈ asked h p s, Q e := by
  induction p generalizing s with
  | done a => simp [asked]
  | ask e k ih =>
    intro e' he'
    rcases List.mem_cons.mp he' with rfl | he'
    · exact hp.1
    · exact ih _ (hp.2 _) _ e' he'

/-- A property of the world that the answers to `Q`-questions keep holds at the end of a
run, and the end value satisfies `P`. -/
theorem run_invariant (hh : ∀ e s, Q e → I s → I (h e s).2) {p : Prog E R α}
    (hp : Always Q P p) {s : σ} (hs : I s) : P (run h p s).1 ∧ I (run h p s).2 := by
  induction p generalizing s with
  | done a => exact ⟨hp, hs⟩
  | ask e k ih => exact ih _ (hp.2 _) (hh e s hp.1 hs)

/-- The same for a run that is stopped. -/
theorem runFor_invariant (hh : ∀ e s, Q e → I s → I (h e s).2) (n : ℕ) {p : Prog E R α}
    (hp : Always Q P p) {s : σ} (hs : I s) : I (runFor h n p s) := by
  induction n generalizing p s with
  | zero => exact hs
  | succ n ih =>
    cases p with
    | done a => exact hs
    | ask e k => exact ih (hp.2 _) (hh e s hp.1 hs)

end Always

section Along

variable {C T : Type} (effect : (e : E) → R e → Option C)

/-- Whatever the answers, the effects of the program are, in order, a sublist of the list;
`effect` tells which effect a question had, given its answer. -/
def Along : Prog E R α → List C → Prop
  | .done _, _ => True
  | .ask e k, l => ∀ r, match effect e r with
    | none => Along (k r) l
    | some c => ∃ l', (c :: l').Sublist l ∧ Along (k r) l'

variable {effect}

theorem Along.mono {p : Prog E R α} {l l' : List C} (hp : Along effect p l)
    (hl : l.Sublist l') : Along effect p l' := by
  induction p generalizing l l' with
  | done a => trivial
  | ask e k ih =>
    intro r
    have hr := hp r
    cases hc : effect e r with
    | none =>
      rw [hc] at hr
      exact ih r hr hl
    | some c =>
      rw [hc] at hr
      obtain ⟨rest, hrest, hk⟩ := hr
      exact ⟨rest, hrest.trans hl, hk⟩

theorem along_question {e : E} {c : C} (h : ∀ r, effect e r = none ∨ effect e r = some c) :
    Along effect (question e : Prog E R _) [c] := by
  intro r
  rcases h r with hc | hc
  · rw [hc]
    trivial
  · rw [hc]
    exact ⟨[], List.Sublist.refl _, trivial⟩

/-- Sequencing. -/
theorem along_bind {p : Prog E R α} {f : α → Prog E R β} {l l' : List C}
    (hp : Along effect p l) (hf : ∀ a, Along effect (f a) l') :
    Along effect (p >>= f) (l ++ l') := by
  induction p generalizing l with
  | done a => exact (hf a).mono (List.sublist_append_right l l')
  | ask e k ih =>
    intro r
    have hr := hp r
    cases hc : effect e r with
    | none =>
      rw [hc] at hr
      exact ih r hr
    | some c =>
      rw [hc] at hr
      obtain ⟨rest, hrest, hk⟩ := hr
      exact ⟨rest ++ l', hrest.append (List.Sublist.refl l'), ih r hk⟩

/-- What follows has no effects. -/
theorem along_bind_nil {p : Prog E R α} {f : α → Prog E R β} {l : List C}
    (hp : Along effect p l) (hf : ∀ a, Along effect (f a) []) : Along effect (p >>= f) l := by
  have hbind := along_bind hp hf
  rwa [List.append_nil] at hbind

/-- A loop, one effect a round. -/
theorem along_foldlM {f : β → ι → Prog E R β} {g : ι → C} {l : List ι} {b : β}
    (hf : ∀ b, ∀ i ∈ l, Along effect (f b i) [g i]) :
    Along effect (l.foldlM f b) (l.map g) := by
  induction l generalizing b with
  | nil => trivial
  | cons i l ih =>
    rw [List.foldlM_cons, List.map_cons, ← List.singleton_append]
    refine along_bind (hf b i (by simp)) fun b' => ?_
    exact ih fun c j hj => hf c j (List.mem_cons_of_mem _ hj)

/-- **The effects of a stopped run**, on what is seen of the world, are a sublist. -/
theorem exists_sublist {h : (e : E) → σ → R e × σ} {view : σ → T} {apply : T → C → Option T}
    (hnone : ∀ e s, effect e (h e s).1 = none → view (h e s).2 = view s)
    (hsome : ∀ e s c, effect e (h e s).1 = some c → apply (view s) c = some (view (h e s).2))
    (n : ℕ) {p : Prog E R α} {l : List C} (hp : Along effect p l) (s : σ) :
    ∃ cs : List C, cs.Sublist l ∧
      cs.foldlM apply (view s) = some (view (runFor h n p s)) := by
  induction n generalizing p l s with
  | zero => exact ⟨[], List.nil_sublist l, rfl⟩
  | succ n ih =>
    cases p with
    | done a => exact ⟨[], List.nil_sublist l, rfl⟩
    | ask e k =>
      have hr := hp (h e s).1
      cases hc : effect e (h e s).1 with
      | none =>
        rw [hc] at hr
        obtain ⟨cs, hcs, happly⟩ := ih hr (h e s).2
        exact ⟨cs, hcs, by rw [← hnone e s hc]; exact happly⟩
      | some c =>
        rw [hc] at hr
        obtain ⟨rest, hrest, hk⟩ := hr
        obtain ⟨cs, hcs, happly⟩ := ih hk (h e s).2
        refine ⟨c :: cs, (List.Sublist.cons_cons c hcs).trans hrest, ?_⟩
        rw [List.foldlM_cons, hsome e s c hc]
        exact happly

end Along

end Prog

end CommandProgram
