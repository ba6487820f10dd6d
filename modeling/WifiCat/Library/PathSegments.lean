import WifiCat.Library.Scan

/-!
# Paths as segments

A path leads from segment to segment, and one of the segments stands for the parent.  `resolve` is
the place it leads to.  `resolveOnce` goes to the parent only directly behind another segment, so
that of several parents in a row only the first one counts; `resolveOnce_eq_resolve_iff` says when
that makes no difference.  `slashed` is a path as it is written.
-/

set_option autoImplicit false

namespace PathSegments

variable {α : Type} [DecidableEq α] {parent : α}

/-- The place behind a segment. -/
def go (parent : α) (place : List α) (segment : α) : List α :=
  if segment = parent then place.dropLast else place ++ [segment]

/-- The place that a path leads to. -/
def resolve (parent : α) (segments : List α) : List α := segments.foldl (go parent) []

/-- The place behind a segment, and whether the segment was another one than the parent. -/
def goOnce (parent : α) (s : List α × Bool) (segment : α) : List α × Bool :=
  if segment = parent then (if s.2 then s.1.dropLast else s.1, false) else (s.1 ++ [segment], true)

/-- The place that a path leads to when a parent counts only behind another segment. -/
def resolveOnce (parent : α) (segments : List α) : List α :=
  (segments.foldl (goOnce parent) ([], false)).1

/-- A path of which nothing, or a parent, is the last segment. -/
def AtParent (parent : α) (segments : List α) : Prop := ∀ x, segments.getLast? = some x → x = parent

instance (segments : List α) : Decidable (AtParent parent segments) :=
  match h : segments.getLast? with
  | none => isTrue fun x hx => by rw [h] at hx; cases hx
  | some y => decidable_of_iff (y = parent) (by simp [AtParent, h])

theorem resolve_concat (segments : List α) (x : α) :
    resolve parent (segments ++ [x]) = go parent (resolve parent segments) x := by
  simp [resolve]

/-- The mark says whether the last segment was another one than the parent. -/
theorem foldl_goOnce_snd (segments : List α) :
    (segments.foldl (goOnce parent) ([], false)).2 = decide (¬AtParent parent segments) := by
  induction segments using List.reverseRecOn with
  | nil => simp [AtParent]
  | append_singleton segments x ih =>
    rw [List.foldl_append, List.foldl_cons, List.foldl_nil, goOnce]
    split
    · next hx => simp [AtParent, hx]
    · next hx => simp [AtParent, hx]

theorem resolveOnce_concat (segments : List α) (x : α) :
    resolveOnce parent (segments ++ [x]) =
      if x = parent then
        if AtParent parent segments then resolveOnce parent segments
        else (resolveOnce parent segments).dropLast
      else resolveOnce parent segments ++ [x] := by
  rw [resolveOnce, List.foldl_append, List.foldl_cons, List.foldl_nil, goOnce, foldl_goOnce_snd]
  split
  · by_cases h : AtParent parent segments <;> simp [h, resolveOnce]
  · rfl

/-- What is left of a path are segments of it, and no parents. -/
theorem mem_resolveOnce {segments : List α} {x : α} (h : x ∈ resolveOnce parent segments) :
    x ∈ segments ∧ x ≠ parent := by
  induction segments using List.reverseRecOn with
  | nil => cases h
  | append_singleton segments y ih =>
    rw [resolveOnce_concat] at h
    rw [List.mem_append]
    split at h
    · split at h
      · exact ⟨Or.inl (ih h).1, (ih h).2⟩
      · have hmem := ih (List.dropLast_subset _ h)
        exact ⟨Or.inl hmem.1, hmem.2⟩
    · next hy =>
      rcases List.mem_append.mp h with h | h
      · exact ⟨Or.inl (ih h).1, (ih h).2⟩
      · exact ⟨Or.inr h, by rw [List.mem_singleton.mp h]; exact hy⟩

/-- The place a path leads to is made of its segments. -/
theorem mem_resolve {segments : List α} {x : α} (h : x ∈ resolve parent segments) :
    x ∈ segments := by
  induction segments using List.reverseRecOn with
  | nil => cases h
  | append_singleton segments y ih =>
    rw [resolve_concat, go] at h
    rw [List.mem_append]
    split at h
    · exact Or.inl (ih (List.dropLast_subset _ h))
    · exact (List.mem_append.mp h).imp_left ih

/-- A path without parents stays as it is. -/
theorem resolveOnce_eq_self {segments : List α} (h : parent ∉ segments) :
    resolveOnce parent segments = segments := by
  induction segments using List.reverseRecOn with
  | nil => rfl
  | append_singleton segments x ih =>
    rw [List.mem_append, List.mem_singleton, not_or] at h
    rw [resolveOnce_concat, if_neg (Ne.symm h.2), ih h.1]

/-- The place is never shorter than the one the path leads to. -/
theorem length_resolve_le (segments : List α) :
    (resolve parent segments).length ≤ (resolveOnce parent segments).length := by
  induction segments using List.reverseRecOn with
  | nil => exact Nat.le_refl _
  | append_singleton segments x ih =>
    rw [resolve_concat, resolveOnce_concat, go]
    split
    · split <;> simp only [List.length_dropLast] <;> omega
    · simp only [List.length_append, List.length_singleton]
      omega

omit [DecidableEq α] in
/-- A path that is not at a parent ends in another segment. -/
theorem exists_concat {segments : List α} (h : ¬AtParent parent segments) :
    ∃ init x, segments = init ++ [x] ∧ x ≠ parent := by
  unfold AtParent at h
  push Not at h
  obtain ⟨x, hlast, hx⟩ := h
  obtain ⟨init, rfl⟩ := List.getLast?_eq_some_iff.mp hlast
  exact ⟨init, x, rfl, hx⟩

/-- **Parents in a row** make a difference exactly when one of the later ones still had something
to leave. -/
theorem resolveOnce_eq_resolve_iff (segments : List α) :
    resolveOnce parent segments = resolve parent segments ↔
      ∀ init, init ++ [parent] <+: segments → AtParent parent init → resolve parent init = [] := by
  induction segments using List.reverseRecOn with
  | nil => simp [resolveOnce, resolve]
  | append_singleton segments x ih =>
    rw [resolve_concat, resolveOnce_concat, go]
    have hprefix : ∀ init, init ++ [parent] <+: segments ++ [x] ↔
        (init = segments ∧ parent = x) ∨ init ++ [parent] <+: segments := by
      intro init
      rw [List.prefix_concat_iff]
      exact or_congr_left List.append_singleton_inj
    have hcond : (∀ init, init ++ [parent] <+: segments ++ [x] → AtParent parent init →
        resolve parent init = []) ↔
        (x = parent → AtParent parent segments → resolve parent segments = []) ∧
          resolveOnce parent segments = resolve parent segments := by
      simp only [ih, hprefix]
      constructor
      · intro h
        exact ⟨fun hx => h segments (Or.inl ⟨rfl, hx.symm⟩), fun init hinit => h init (Or.inr hinit)⟩
      · rintro ⟨hlast, hrest⟩ init (⟨rfl, hx⟩ | hinit)
        · exact hlast hx.symm
        · exact hrest init hinit
    rw [hcond]
    by_cases hx : x = parent
    · rw [if_pos hx, if_pos hx]
      by_cases hat : AtParent parent segments
      · rw [if_pos hat]
        -- there must be nothing left to leave: the place is never the shorter one
        have hle : (resolve parent segments).length ≤ (resolveOnce parent segments).length :=
          length_resolve_le segments
        constructor
        · intro heq
          rw [heq, List.length_dropLast] at hle
          have hnil : resolve parent segments = [] := List.length_eq_zero_iff.mp (by omega)
          exact ⟨fun _ _ => hnil, by rw [heq, hnil]; rfl⟩
        · rintro ⟨hnil, heq⟩
          rw [heq, hnil hx hat]
          rfl
      · rw [if_neg hat]
        obtain ⟨init, y, rfl, hy⟩ := exists_concat hat
        rw [resolve_concat, resolveOnce_concat, go, if_neg hy, if_neg hy, List.dropLast_concat,
          List.dropLast_concat, List.append_left_inj]
        exact ⟨fun heq => ⟨fun _ h => absurd h hat, heq⟩, fun h => h.2⟩
    · rw [if_neg hx, if_neg hx, List.append_left_inj]
      exact ⟨fun heq => ⟨fun h => absurd h hx, heq⟩, fun h => h.2⟩

/-! ## Paths as they are written -/

open Scan

/-- A path with a slash before every segment. -/
def slashed (segments : List Text) : Text := (segments.map ('/' :: ·)).flatten

@[simp] theorem slashed_nil : slashed [] = [] := rfl

@[simp] theorem slashed_cons (c : Text) (cs : List Text) :
    slashed (c :: cs) = '/' :: (c ++ slashed cs) := by
  simp [slashed]

theorem slashed_append (cs ds : List Text) : slashed (cs ++ ds) = slashed cs ++ slashed ds := by
  simp [slashed]

theorem slashed_eq_unfields {cs : List Text} (h : cs ≠ []) :
    slashed cs = '/' :: unfields '/' cs := by
  induction cs with
  | nil => exact absurd rfl h
  | cons c cs ih =>
    cases cs with
    | nil => simp [unfields]
    | cons d ds =>
      rw [slashed_cons, ih (List.cons_ne_nil d ds), unfields, unfields, List.intercalate_cons_cons,
        List.append_assoc, List.singleton_append]

/-- A text behind a slash is the path of its fields. -/
theorem slashed_fields (s : Text) : slashed (fields '/' s) = '/' :: s := by
  rw [slashed_eq_unfields (fields_ne_nil '/' s), unfields_fields]

/-- The last segment, which is empty behind a slash. -/
def lastSegment (s : Text) : Text := (fields '/' s).getLast (fields_ne_nil '/' s)

theorem lastSegment_clean (s : Text) : '/' ∉ lastSegment s :=
  not_mem_of_mem_fields (List.getLast_mem _)

/-- Segments without slashes are told apart by the path. -/
theorem slashed_injective {cs ds : List Text} (hcs : ∀ c ∈ cs, '/' ∉ c) (hds : ∀ d ∈ ds, '/' ∉ d)
    (h : slashed cs = slashed ds) : cs = ds := by
  cases cs with
  | nil =>
    cases ds with
    | nil => rfl
    | cons d ds => rw [slashed_cons] at h; cases h
  | cons c cs =>
    cases ds with
    | nil => rw [slashed_cons] at h; cases h
    | cons d ds =>
      rw [slashed_eq_unfields (List.cons_ne_nil c cs), slashed_eq_unfields (List.cons_ne_nil d ds),
        List.cons.injEq] at h
      rw [← fields_unfields (List.cons_ne_nil c cs) hcs, h.2,
        fields_unfields (List.cons_ne_nil d ds) hds]

end PathSegments
