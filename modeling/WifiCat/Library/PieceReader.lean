import Mathlib.Tactic

/-!
# A stream that is received in pieces

A reader hands out one element after the other; when it has none left it receives the next
piece, and a piece of nothing is the end.  `feed` is a loop that reads until its step function
has an answer.  Such a loop sees only the stream, not its pieces (`feed_stream`).
-/

set_option autoImplicit false

namespace PieceReader

variable {α σ β : Type}

/-- What was received and is not read yet, and the pieces that are still to come. -/
structure Reader (α : Type) where
  ready : List α := []
  pieces : List (List α)

/-- What can still be read. -/
def Reader.stream (r : Reader α) : List α :=
  r.ready ++ (r.pieces.takeWhile fun piece => !piece.isEmpty).flatten

/-- The next element. -/
def Reader.next (r : Reader α) : Option (α × Reader α) :=
  match r.ready, r.pieces with
  | a :: ready, pieces => some (a, ⟨ready, pieces⟩)
  | [], (a :: ready) :: pieces => some (a, ⟨ready, pieces⟩)
  | [], _ => none

/-- Nothing is read exactly at the end of the stream. -/
theorem next_eq_none {r : Reader α} : r.next = none ↔ r.stream = [] := by
  obtain ⟨ready, pieces⟩ := r
  cases ready with
  | cons a ready => simp [Reader.next, Reader.stream]
  | nil =>
    cases pieces with
    | nil => simp [Reader.next, Reader.stream]
    | cons piece pieces => cases piece <;> simp [Reader.next, Reader.stream]

/-- What is read is the first element of the stream, and the others stay. -/
theorem next_eq_some {r r' : Reader α} {a : α} (h : r.next = some (a, r')) :
    r.stream = a :: r'.stream := by
  obtain ⟨ready, pieces⟩ := r
  cases ready with
  | cons b ready =>
    simp only [Reader.next, Option.some.injEq, Prod.mk.injEq] at h
    obtain ⟨rfl, rfl⟩ := h
    rfl
  | nil =>
    cases pieces with
    | nil => cases h
    | cons piece pieces =>
      cases piece with
      | nil => cases h
      | cons b ready =>
        simp only [Reader.next, Option.some.injEq, Prod.mk.injEq] at h
        obtain ⟨rfl, rfl⟩ := h
        rfl

/-- As long as the stream goes on, something is read. -/
theorem exists_next {r : Reader α} {a : α} {s : List α} (h : r.stream = a :: s) :
    ∃ r', r.next = some (a, r') ∧ r'.stream = s := by
  cases hnext : r.next with
  | none => exact absurd (next_eq_none.mp hnext) (by simp [h])
  | some p =>
    have hstream : r.stream = p.1 :: p.2.stream := next_eq_some hnext
    rw [h, List.cons.injEq] at hstream
    exact ⟨p.2, by rw [hstream.1], hstream.2.symm⟩

/-! ## Loops that read -/

/-- Read until the step function answers; `none` when the stream ends before. -/
def Reader.feed (step : σ → α → σ ⊕ β) (s : σ) (r : Reader α) : Option (β × Reader α) :=
  match _h : r.next with
  | none => none
  | some (a, r') =>
    match step s a with
    | .inl s' => r'.feed step s'
    | .inr b => some (b, r')
termination_by r.stream.length
decreasing_by simp [next_eq_some _h]

/-- The same loop over a list. -/
def feedList (step : σ → α → σ ⊕ β) : σ → List α → Option (β × List α)
  | _, [] => none
  | s, a :: as =>
    match step s a with
    | .inl s' => feedList step s' as
    | .inr b => some (b, as)

/-- **A loop that reads sees only the stream.** -/
theorem feed_stream (step : σ → α → σ ⊕ β) (s : σ) (r : Reader α) :
    (r.feed step s).map (Prod.map id Reader.stream) = feedList step s r.stream := by
  induction hstream : r.stream generalizing s r with
  | nil =>
    rw [Reader.feed]
    split
    · rfl
    · next a r' hnext => rw [next_eq_some hnext] at hstream; cases hstream
  | cons a as ih =>
    obtain ⟨r', hnext, hrest⟩ := exists_next hstream
    rw [Reader.feed]
    split
    · next hnone => rw [hnone] at hnext; cases hnext
    · next b r'' hsome =>
      rw [hsome, Option.some.injEq, Prod.mk.injEq] at hnext
      obtain ⟨rfl, rfl⟩ := hnext
      rw [feedList]
      cases step s b with
      | inl s' => exact ih s' r'' hrest
      | inr b => simp [hrest]

/-- A loop that ends has read something. -/
theorem feedList_length {step : σ → α → σ ⊕ β} {s : σ} {as rest : List α} {b : β}
    (h : feedList step s as = some (b, rest)) : rest.length < as.length := by
  induction as generalizing s with
  | nil => cases h
  | cons a as ih =>
    rw [feedList] at h
    rw [List.length_cons]
    split at h
    · have hlt := ih h
      omega
    · rw [Option.some.injEq, Prod.mk.injEq] at h
      obtain ⟨-, rfl⟩ := h
      omega

theorem feed_length {step : σ → α → σ ⊕ β} {s : σ} {r r' : Reader α} {b : β}
    (h : r.feed step s = some (b, r')) : r'.stream.length < r.stream.length := by
  have hlist := feed_stream step s r
  rw [h] at hlist
  exact feedList_length hlist.symm

/-- Two readers of one stream end such a loop alike. -/
theorem feed_congr (step : σ → α → σ ⊕ β) (s : σ) {r₁ r₂ : Reader α}
    (h : r₁.stream = r₂.stream) :
    (r₁.feed step s = none ∧ r₂.feed step s = none) ∨
      ∃ b r₁' r₂', r₁.feed step s = some (b, r₁') ∧ r₂.feed step s = some (b, r₂') ∧
        r₁'.stream = r₂'.stream := by
  have hsame := feed_stream step s r₁
  rw [h, ← feed_stream step s r₂] at hsame
  cases h₁ : r₁.feed step s with
  | none =>
    rw [h₁] at hsame
    exact Or.inl ⟨rfl, Option.map_eq_none_iff.mp hsame.symm⟩
  | some p =>
    rw [h₁] at hsame
    obtain ⟨q, h₂, heq⟩ := Option.map_eq_some_iff.mp hsame.symm
    rw [Prod.map_apply', Prod.map_apply', Prod.mk.injEq] at heq
    exact Or.inr ⟨p.1, p.2, q.2, rfl, h₂.trans (congrArg some (Prod.ext heq.1 rfl)), heq.2.symm⟩

end PieceReader
