import Mathlib.Data.Finset.Basic
import Mathlib.Logic.Relation
import Mathlib.Tactic

/-!
# Locks taken in an order

The code of a thread is what it does to mutexes, with choices and loops where the program
branches.  `Code.after` follows the code with the set of mutexes held; it gives up where a
mutex is taken although one that does not come before it is held.  Threads whose code passes
never wait for each other in a circle (`not_deadlocked`): along a chain of waiting threads
the mutexes waited for climb.
-/

set_option autoImplicit false

namespace LockOrder

variable {M : Type} [DecidableEq M]

/-- What code does to mutexes. -/
inductive Code (M : Type)
  | skip
  | lock (m : M)
  | unlock (m : M)
  | seq (a b : Code M)
  | choice (a b : Code M)
  | loop (a : Code M)
  | exit
deriving DecidableEq, Repr

/-- The mutexes held after the code; `none` when it takes one out of order, releases one that
is not held, or its branches disagree. -/
def Code.after (rank : M → ℕ) : Code M → Finset M → Option (Finset M)
  | .skip, held => some held
  | .lock m, held => if ∀ k ∈ held, rank k < rank m then some (insert m held) else none
  | .unlock m, held => if m ∈ held then some (held.erase m) else none
  | .seq a b, held => (a.after rank held).bind (b.after rank)
  | .choice a b, held => if a.after rank held = b.after rank held then a.after rank held else none
  | .loop a, held => if a.after rank held = some held then some held else none
  | .exit, held => some held

section After

variable (rank : M → ℕ) (held : Finset M)

@[simp]
theorem Code.after_skip : (Code.skip : Code M).after rank held = some held := rfl

@[simp]
theorem Code.after_exit : (Code.exit : Code M).after rank held = some held := rfl

@[simp]
theorem Code.after_seq (a b : Code M) :
    (Code.seq a b).after rank held = (a.after rank held).bind (b.after rank) := rfl

end After

/-- A thread: the mutexes it holds and the code it still has to run. -/
structure Thread (M : Type) where
  held : Finset M := ∅
  code : List (Code M) := []
deriving DecidableEq

/-- One step of a thread: `free` are the mutexes nobody holds, `turn` decides the choices.
A thread that has to wait, or that ends the process, makes none. -/
def Thread.step (free : M → Prop) [DecidablePred free] (turn : Bool) (t : Thread M) :
    Option (Thread M) :=
  match t.code with
  | [] => none
  | .skip :: rest => some { t with code := rest }
  | .lock m :: rest => if free m then some { held := insert m t.held, code := rest } else none
  | .unlock m :: rest => some { held := t.held.erase m, code := rest }
  | .seq a b :: rest => some { t with code := a :: b :: rest }
  | .choice a b :: rest => some { t with code := (if turn then a else b) :: rest }
  | .loop a :: rest => some { t with code := if turn then a :: .loop a :: rest else rest }
  | .exit :: _ => none

/-- The code the thread still has to run keeps the order. -/
def Thread.Ordered (rank : M → ℕ) (t : Thread M) : Prop :=
  (t.code.foldlM (fun held (c : Code M) => c.after rank held) t.held).isSome

/-- The mutex that the code takes first. -/
def Code.wants : Code M → Option M
  | .lock m => some m
  | .seq a _ => a.wants
  | _ => none

/-- The mutex that the thread takes next. -/
def Thread.wants (t : Thread M) : Option M := t.code.head?.bind Code.wants

variable {rank : M → ℕ}

theorem Thread.ordered_cons {held : Finset M} {c : Code M} {rest : List (Code M)} :
    Thread.Ordered rank { held := held, code := c :: rest } ↔
      ∃ held', c.after rank held = some held' ∧
        Thread.Ordered rank { held := held', code := rest } := by
  unfold Thread.Ordered
  rw [List.foldlM_cons]
  cases c.after rank held with
  | none => simp
  | some held' => simp

/-- A step keeps the order. -/
theorem Thread.Ordered.step {free : M → Prop} [DecidablePred free] {turn : Bool}
    {t t' : Thread M} (h : t.Ordered rank) (hstep : t.step free turn = some t') :
    t'.Ordered rank := by
  obtain ⟨held, code⟩ := t
  cases code with
  | nil => cases hstep
  | cons c rest =>
    obtain ⟨held', hafter, hrest⟩ := Thread.ordered_cons.mp h
    cases c with
    | skip =>
      obtain rfl := Option.some.inj hafter
      obtain rfl := Option.some.inj hstep
      exact hrest
    | lock m =>
      simp only [Thread.step] at hstep
      simp only [Code.after] at hafter
      split at hafter
      · split at hstep
        · obtain rfl := Option.some.inj hafter
          obtain rfl := Option.some.inj hstep
          exact hrest
        · cases hstep
      · cases hafter
    | unlock m =>
      simp only [Code.after] at hafter
      split at hafter
      · obtain rfl := Option.some.inj hafter
        obtain rfl := Option.some.inj hstep
        exact hrest
      · cases hafter
    | seq a b =>
      obtain ⟨mid, ha, hb⟩ := Option.bind_eq_some_iff.mp hafter
      obtain rfl := Option.some.inj hstep
      exact Thread.ordered_cons.mpr ⟨mid, ha, Thread.ordered_cons.mpr ⟨held', hb, hrest⟩⟩
    | choice a b =>
      simp only [Code.after] at hafter
      split at hafter
      · next heq =>
        obtain rfl := Option.some.inj hstep
        refine Thread.ordered_cons.mpr ⟨held', ?_, hrest⟩
        cases turn with
        | true => exact hafter
        | false => exact heq ▸ hafter
      · cases hafter
    | loop a =>
      have hloop := hafter
      simp only [Code.after] at hafter
      split at hafter
      · next hbody =>
        obtain rfl := Option.some.inj hafter
        obtain rfl := Option.some.inj hstep
        cases turn with
        | true =>
          exact Thread.ordered_cons.mpr
            ⟨held, hbody, Thread.ordered_cons.mpr ⟨held, hloop, hrest⟩⟩
        | false => exact hrest
      · cases hafter
    | exit => cases hstep

/-- Code that gives back what it takes may run before the rest of a thread's code. -/
theorem Thread.Ordered.push {t : Thread M} {c : Code M} (h : t.Ordered rank)
    (hc : c.after rank t.held = some t.held) :
    Thread.Ordered rank { t with code := c :: t.code } :=
  Thread.ordered_cons.mpr ⟨t.held, hc, h⟩

/-- Code that keeps the order takes a mutex behind those held. -/
theorem Code.rank_lt {c : Code M} {held held' : Finset M} {m k : M}
    (h : c.after rank held = some held') (hwants : c.wants = some m) (hk : k ∈ held) :
    rank k < rank m := by
  induction c generalizing held' with
  | lock m' =>
    obtain rfl := Option.some.inj hwants
    simp only [Code.after] at h
    split at h
    · next hall => exact hall k hk
    · cases h
  | seq a b iha _ =>
    rw [Code.after_seq] at h
    obtain ⟨mid, ha, -⟩ := Option.bind_eq_some_iff.mp h
    exact iha ha hwants
  | _ => cases hwants

/-- The mutexes held come before the one that is wanted. -/
theorem Thread.Ordered.rank_lt {t : Thread M} {m k : M} (h : t.Ordered rank)
    (hwants : t.wants = some m) (hk : k ∈ t.held) : rank k < rank m := by
  obtain ⟨held, code⟩ := t
  cases code with
  | nil => cases hwants
  | cons c rest =>
    obtain ⟨held', hafter, -⟩ := Thread.ordered_cons.mp h
    exact Code.rank_lt hafter hwants hk

variable {ι : Type}

/-- A thread waits for a mutex that another one holds, or it itself. -/
def WaitsFor (threads : ι → Thread M) (i j : ι) : Prop :=
  ∃ m, (threads i).wants = some m ∧ m ∈ (threads j).held

/-- Some threads wait for each other in a circle; a circle of one is a thread that waits for
a mutex it holds. -/
def Deadlocked (threads : ι → Thread M) : Prop :=
  ∃ i, Relation.TransGen (WaitsFor threads) i i

/-- Along a chain of waiting threads the mutexes climb. -/
theorem rank_le_of_waits {threads : ι → Thread M} (h : ∀ i, (threads i).Ordered rank)
    {i j : ι} (hchain : Relation.TransGen (WaitsFor threads) i j) :
    ∀ m, (threads i).wants = some m → ∃ k ∈ (threads j).held, rank m ≤ rank k := by
  intro m hm
  induction hchain with
  | single hwaits =>
    obtain ⟨m', hm', hheld⟩ := hwaits
    rw [hm] at hm'
    exact ⟨m', hheld, by rw [Option.some.inj hm']⟩
  | tail _ hwaits ih =>
    obtain ⟨k, hk, hle⟩ := ih
    obtain ⟨m', hm', hheld⟩ := hwaits
    have hlt := (h _).rank_lt hm' hk
    exact ⟨m', hheld, by omega⟩

/-- **Lock order**: threads that take mutexes in order never wait in a circle. -/
theorem not_deadlocked {threads : ι → Thread M} (h : ∀ i, (threads i).Ordered rank) :
    ¬Deadlocked threads := by
  rintro ⟨i, hchain⟩
  obtain ⟨j, ⟨m, hm, -⟩, -⟩ := Relation.TransGen.head'_iff.mp hchain
  obtain ⟨k, hk, hle⟩ := rank_le_of_waits h hchain m hm
  have hlt := (h i).rank_lt hm hk
  omega

end LockOrder
