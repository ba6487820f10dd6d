import WifiCat.Library.PathSegments
import WifiCat.Model.HttpdRequest

/-!
# The sanitised path

`_httpd_sanitiseUrl` makes three passes over the characters of a path.  Seen as segments, the first
two leave out the empty ones and the dots, and the third one goes to the parent at every `..` that
does not follow another one.
-/

set_option autoImplicit false

namespace WifiCat.Analysis

open Scan PathSegments

/-- A segment that leads to the parent. -/
def upSegment : Text := "..".toList

/-! ## The first two passes -/

/-- INTERNAL: a pass that leaves out one segment, wherever another one follows it, and changes
nothing else. -/
structure LeavesOut (segment : Text) (pass : Text → Text) : Prop where
  nil : pass [] = []
  other : ∀ c s, c ≠ '/' → pass (c :: s) = c :: pass s
  out : ∀ s, pass ('/' :: (segment ++ '/' :: s)) = pass ('/' :: s)
  keep : ∀ s, ¬('/' :: (segment ++ ['/'])) <+: '/' :: s → pass ('/' :: s) = '/' :: pass s

theorem leavesOut_removeSlashes : LeavesOut [] removeSlashes where
  nil := rfl
  other c s h := by
    rw [removeSlashes]
    rintro s' rfl
    exact absurd rfl h
  out s := rfl
  keep s h := by
    rw [removeSlashes]
    rintro s' - rfl
    exact absurd ⟨s', rfl⟩ h

theorem leavesOut_removeDots : LeavesOut ".".toList removeDots where
  nil := rfl
  other c s h := by
    rw [removeDots]
    rintro s' rfl
    exact absurd rfl h
  out s := rfl
  keep s h := by
    rw [removeDots]
    rintro s' - rfl
    exact absurd ⟨s', rfl⟩ h

/-- Two segments before a slash are the same when the path goes on alike. -/
theorem eq_of_slash {a b s : Text} (ha : '/' ∉ a) (hb : '/' ∉ b)
    (h : a ++ ['/'] <+: b ++ '/' :: s) : a = b := by
  obtain ⟨u, hu⟩ := h
  rw [List.append_assoc, List.singleton_append] at hu
  have hfields := congrArg (fields '/') hu
  rw [fields_append_sep ha, fields_append_sep hb, List.cons.injEq] at hfields
  exact hfields.1

theorem not_prefix_of_not_mem {a b : Text} (hb : '/' ∉ b) : ¬a ++ ['/'] <+: b :=
  fun h => hb (h.subset (by simp))

theorem exists_slashed {cs : List Text} (h : cs ≠ []) : ∃ s, slashed cs = '/' :: s := by
  obtain ⟨c, cs, rfl⟩ := List.exists_cons_of_ne_nil h
  exact ⟨_, slashed_cons c cs⟩

section Passes

variable {segment : Text} {pass : Text → Text}

theorem LeavesOut.word (h : LeavesOut segment pass) {w : Text} (hw : '/' ∉ w) (s : Text) :
    pass (w ++ s) = w ++ pass s := by
  induction w with
  | nil => rfl
  | cons c w ih =>
    rw [List.mem_cons, not_or] at hw
    rw [List.cons_append, h.other c _ (Ne.symm hw.1), ih hw.2, List.cons_append]

/-- INTERNAL: a pass on a path, whose last segment stays whatever it is. -/
theorem LeavesOut.path (h : LeavesOut segment pass) (hsegment : '/' ∉ segment)
    {segments : List Text} (hsegments : ∀ c ∈ segments, '/' ∉ c) {last : Text} (hlast : '/' ∉ last) :
    pass (slashed (segments ++ [last])) =
      slashed (segments.filter (· ≠ segment) ++ [last]) := by
  induction segments with
  | nil =>
    have hkeep : ¬('/' :: (segment ++ ['/'])) <+: '/' :: last := by
      rw [List.cons_prefix_cons]
      exact fun hp => not_prefix_of_not_mem hlast hp.2
    have hword := h.word hlast []
    rw [List.append_nil, h.nil, List.append_nil] at hword
    rw [List.filter_nil, List.nil_append, slashed_cons, slashed_nil, List.append_nil,
      h.keep last hkeep, hword]
  | cons c segments ih =>
    rw [List.forall_mem_cons] at hsegments
    have ih := ih hsegments.2
    obtain ⟨s, hs⟩ := exists_slashed (List.concat_ne_nil last segments)
    rw [List.cons_append, slashed_cons]
    by_cases hc : c = segment
    · rw [List.filter_cons_of_neg (by simp [hc]), ← ih, hs, hc, h.out]
    · have hkeep : ¬('/' :: (segment ++ ['/'])) <+: '/' :: (c ++ slashed (segments ++ [last])) := by
        rw [List.cons_prefix_cons, hs]
        exact fun hp => hc (eq_of_slash hsegment hsegments.1 hp.2).symm
      rw [List.filter_cons_of_pos (by simp [hc]), h.keep _ hkeep, h.word hsegments.1, ih,
        List.cons_append, slashed_cons]

end Passes

/-! ## The third pass -/

theorem removeParents_word {w : Text} (hw : '/' ∉ w) (out : Text) (last : ℕ) (s : Text) :
    removeParents out last (w ++ s) = removeParents (out ++ w) last s := by
  induction w generalizing out with
  | nil => simp
  | cons c w ih =>
    rw [List.mem_cons, not_or] at hw
    rw [List.cons_append, removeParents, ih hw.2, List.append_assoc, List.singleton_append]
    · rintro s' rfl
      exact absurd rfl hw.1
    · rintro rfl
      exact absurd rfl hw.1

theorem removeParents_slash {s : Text} (h : ¬upSegment ++ ['/'] <+: s) (out : Text) (last : ℕ) :
    removeParents out last ('/' :: s) = removeParents (out ++ ['/']) out.length s := by
  rw [removeParents]
  rintro s' rfl
  exact absurd ⟨s', rfl⟩ h

theorem take_slashed_dropLast (place : List Text) :
    (slashed place).take (slashed place.dropLast).length = slashed place.dropLast := by
  obtain ⟨tail, htail⟩ := place.dropLast_prefix
  conv_lhs => rw [← htail]
  rw [slashed_append, htail, List.take_left]

/-- INTERNAL: the third pass on a path.  What is written so far is the path of a place, and the
mark of the last slash is before its last segment, or, behind a parent, at the end.
SOURCE: protocol.c:770-793 -/
theorem removeParents_slashed {segments : List Text} (hsegments : ∀ c ∈ segments, '/' ∉ c)
    {last : Text} (hlast : '/' ∉ last) (place : List Text × Bool) :
    removeParents (slashed place.1)
        (slashed (if place.2 then place.1.dropLast else place.1)).length
        (slashed (segments ++ [last])) =
      slashed ((segments.foldl (goOnce upSegment) place).1 ++ [last]) := by
  induction segments generalizing place with
  | nil =>
    have hword := removeParents_word hlast (slashed place.1 ++ ['/']) (slashed place.1).length []
    rw [List.append_nil] at hword
    rw [List.nil_append, slashed_cons, slashed_nil, List.append_nil,
      removeParents_slash (not_prefix_of_not_mem hlast), hword, removeParents, List.foldl_nil,
      slashed_append, slashed_cons, slashed_nil, List.append_nil, List.append_assoc,
      List.singleton_append]
  | cons c segments ih =>
    rw [List.forall_mem_cons] at hsegments
    obtain ⟨s, hs⟩ := exists_slashed (List.concat_ne_nil last segments)
    rw [List.cons_append, slashed_cons, List.foldl_cons, ← ih hsegments.2]
    by_cases hc : c = upSegment
    · have htake : (slashed place.1).take
          (slashed (if place.2 then place.1.dropLast else place.1)).length =
            slashed (if place.2 then place.1.dropLast else place.1) := by
        split
        · exact take_slashed_dropLast place.1
        · exact List.take_length
      rw [hc, hs]
      show removeParents (List.take _ _) _ _ = _
      rw [htake, goOnce, if_pos rfl]
      rfl
    · have hnot : ¬upSegment ++ ['/'] <+: c ++ slashed (segments ++ [last]) := by
        rw [hs]
        exact fun hp => hc (eq_of_slash (by decide) hsegments.1 hp).symm
      rw [removeParents_slash hnot, removeParents_word hsegments.1, goOnce, if_neg hc]
      simp [slashed_append]

/-! ## The three passes -/

/-- The segments of a path before its last one, without those that the first two passes leave
out. -/
def pathSegments (s : Text) : List Text :=
  (fields '/' s).dropLast.filter fun c => c ≠ [] ∧ c ≠ ".".toList

theorem pathSegments_clean {s c : Text} (h : c ∈ pathSegments s) :
    '/' ∉ c ∧ c ≠ [] ∧ c ≠ ".".toList := by
  obtain ⟨hmem, hkept⟩ := List.mem_filter.mp h
  exact ⟨not_mem_of_mem_fields (List.dropLast_subset _ hmem), of_decide_eq_true hkept⟩

/-- INTERNAL: the passes on a path whose segments are known. -/
theorem sanitiseUrl_slashed {segments : List Text} (hsegments : ∀ c ∈ segments, '/' ∉ c)
    {last : Text} (hlast : '/' ∉ last) :
    httpdSanitiseUrl (slashed (segments ++ [last])) =
      slashed (resolveOnce upSegment (segments.filter fun c => c ≠ [] ∧ c ≠ ".".toList) ++
        [last]) := by
  have hkept : ∀ c ∈ segments.filter (· ≠ []), '/' ∉ c := fun c hc =>
    hsegments c (List.mem_of_mem_filter hc)
  have hfilter : (segments.filter (· ≠ [])).filter (· ≠ ".".toList) =
      segments.filter fun c => c ≠ [] ∧ c ≠ ".".toList := by
    rw [List.filter_filter]
    congr 1
    funext c
    rw [Bool.and_comm, ← Bool.decide_and]
  rw [httpdSanitiseUrl, leavesOut_removeSlashes.path (by decide) hsegments hlast,
    leavesOut_removeDots.path (by decide) hkept hlast, hfilter]
  refine removeParents_slashed (fun c hc => ?_) hlast ([], false)
  exact hsegments c (List.mem_of_mem_filter hc)

/-- INTERNAL: the sanitised path, as segments.
SOURCE: protocol.c:723-794 -/
theorem sanitiseUrl_eq (s : Text) :
    httpdSanitiseUrl ('/' :: s) =
      slashed (resolveOnce upSegment (pathSegments s) ++ [lastSegment s]) := by
  conv_lhs => rw [← slashed_fields s, ← List.dropLast_append_getLast (fields_ne_nil '/' s)]
  refine sanitiseUrl_slashed (fun c hc => ?_) (lastSegment_clean s)
  exact not_mem_of_mem_fields (List.dropLast_subset _ hc)

theorem resolveOnce_clean {s c : Text} (h : c ∈ resolveOnce upSegment (pathSegments s)) :
    '/' ∉ c ∧ c ≠ [] ∧ c ≠ ".".toList ∧ c ≠ upSegment := by
  obtain ⟨hmem, hup⟩ := mem_resolveOnce h
  obtain ⟨hslash, hne, hdot⟩ := pathSegments_clean hmem
  exact ⟨hslash, hne, hdot, hup⟩

/-- **A sanitised path is clean**: before its last segment there is no empty one, no dot and no
parent, and sanitising it again changes nothing.
SOURCE: protocol.c:723-794 -/
theorem sanitiseUrl_clean (s : Text) :
    (∃ segments last, httpdSanitiseUrl ('/' :: s) = slashed (segments ++ [last]) ∧ '/' ∉ last ∧
      ∀ c ∈ segments, '/' ∉ c ∧ c ≠ [] ∧ c ≠ ".".toList ∧ c ≠ upSegment) ∧
    httpdSanitiseUrl (httpdSanitiseUrl ('/' :: s)) = httpdSanitiseUrl ('/' :: s) := by
  rw [sanitiseUrl_eq]
  refine ⟨⟨_, _, rfl, lastSegment_clean s, fun c hc => resolveOnce_clean hc⟩, ?_⟩
  rw [sanitiseUrl_slashed (fun c hc => (resolveOnce_clean hc).1) (lastSegment_clean s)]
  have hsame : (resolveOnce upSegment (pathSegments s)).filter
      (fun c => c ≠ [] ∧ c ≠ ".".toList) = resolveOnce upSegment (pathSegments s) := by
    refine List.filter_eq_self.mpr fun c hc => decide_eq_true ?_
    exact ⟨(resolveOnce_clean hc).2.1, (resolveOnce_clean hc).2.2.1⟩
  rw [hsame, resolveOnce_eq_self fun hup => (resolveOnce_clean hup).2.2.2 rfl]

/-- **A sanitised path leads where the path led** exactly when no `..` behind another one, or at
the start, had a segment left to remove.
SOURCE: protocol.c:723-794 -/
theorem sanitiseUrl_resolves_iff (s : Text) :
    httpdSanitiseUrl ('/' :: s) =
        slashed (resolve upSegment (pathSegments s) ++ [lastSegment s]) ↔
      ∀ init, init ++ [upSegment] <+: pathSegments s → AtParent upSegment init →
        resolve upSegment init = [] := by
  rw [sanitiseUrl_eq, ← resolveOnce_eq_resolve_iff]
  constructor
  · intro heq
    refine List.append_cancel_right (slashed_injective ?_ ?_ heq)
    · exact List.forall_mem_append.mpr ⟨fun c hc => (resolveOnce_clean hc).1,
        List.forall_mem_singleton.mpr (lastSegment_clean s)⟩
    · exact List.forall_mem_append.mpr ⟨fun c hc => (pathSegments_clean (mem_resolve hc)).1,
        List.forall_mem_singleton.mpr (lastSegment_clean s)⟩
  · intro heq
    rw [heq]

end WifiCat.Analysis
