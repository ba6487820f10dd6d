import WifiCat.Analysis.JsmnTokens
import WifiCat.Analysis.ServerDocument

/-!
# What the walk over a document does with memory

Whether a text that is copied into the buffer is read back as it is depends on what has been
copied before: 32 bytes are cleared for most keys, the whole buffer for a free domain, and
nothing at the start.  `fits` decides it from the text's length and from how far the buffer
may hold something else, and `documentFits` follows the walk with it.  The walk stays in
bounds whatever stands in the buffer and in the token array at the start if and only if the
document fits (`in_bounds_iff`).
-/

set_option autoImplicit false

namespace WifiCat.Analysis

open Scan WifiCat

/-- What the walk does is as it has to be: it reads a token there is, a copy and its NUL have
room in the buffer, and what it hands on is the text of the token. -/
def InBounds (js : Text) (res : ℕ) : ConfAccess → Prop
  | .token i => i < res
  | .free _ => True
  | .copy len => 0 ≤ len ∧ len + 1 ≤ 128
  | .handed text tok => text = tok.text js

instance (js : Text) (res : ℕ) : DecidablePred (InBounds js res)
  | .token i => inferInstanceAs (Decidable (i < res))
  | .free _ => inferInstanceAs (Decidable True)
  | .copy len => inferInstanceAs (Decidable (0 ≤ len ∧ len + 1 ≤ 128))
  | .handed text tok => inferInstanceAs (Decidable (text = tok.text js))

/-- All accesses of a call are in bounds. -/
def AccessesInBounds (m : ConfMoment) (c : ServerConfig) : Prop :=
  ∀ json, serverDocument m c = some json → ∀ access ∈ (confFromJson m json c).2.2.log,
    InBounds json (confFromJson m json c).1 access

/-! ## What fits -/

/-- A text of this length is read back when `cleared` bytes are cleared before it is copied and
the bytes from `dirty` on are zero. -/
def fits (cleared dirty len : ℕ) : Bool :=
  decide (len < 128 ∧ (len < cleared ∨ dirty ≤ len))

/-- From where on the bytes are zero after that. -/
def dirtied (cleared dirty len : ℕ) : ℕ := if dirty ≤ cleared then len else max dirty len

/-- The elements of a list fit one after the other; the answer is from where on the bytes are
zero behind them. -/
def elementsFit (js : Text) (cleared : ℕ) : ℕ → List JsmnToken → Option ℕ
  | dirty, [] => some dirty
  | dirty, g :: gs =>
    if fits cleared dirty (g.text js).length then
      elementsFit js cleared (dirtied cleared dirty (g.text js).length) gs
    else none

/-- Up to the first key that is rejected, every key has a value, and everything that is copied
fits; the tokens are those from a key on. -/
def documentFits (js : Text) : ℕ → ℕ → List JsmnToken → Bool
  | 0, _, _ => true
  | _ + 1, _, [] => true
  | fuel + 1, dirty, key :: toks =>
    match confKey js key with
    | none => true
    | some kind =>
      match toks with
      | [] => false
      | value :: toks =>
        match kind with
        | .text _ => documentFits js fuel dirty toks
        | .number _ =>
          fits 32 dirty (value.text js).length &&
            documentFits js fuel (dirtied 32 dirty (value.text js).length) toks
        | .list key =>
          if value.type ≠ .array then true
          else
            match elementsFit js key.cleared dirty (toks.take value.size) with
            | none => false
            | some dirty => documentFits js fuel dirty (toks.drop value.size)

/-- A document that is tokenized to an object fits into a buffer in which any byte may hold
something. -/
def FitsBuffer (json : Text) : Prop :=
  match jsmnParse 256 json with
  | .ok (tok :: toks) => tok.type = .object → documentFits json (toks.length + 1) 128 toks = true
  | _ => True

/-! ## The buffer -/

/-- The buffer has its size, and is zero from a place on. -/
structure CleanFrom (dirty : ℕ) (tmp : Text) : Prop where
  length : tmp.length = 128
  zero : ∀ i, dirty ≤ i → i < 128 → tmp[i]? = some '\x00'

/-- The buffer has its size, and up to a place there is no zero in it, apart from the bytes
that are always cleared. -/
structure SoiledUpTo (dirty : ℕ) (tmp : Text) : Prop where
  length : tmp.length = 128
  le : dirty ≤ 128
  nonzero : ∀ i, 32 ≤ i → i < dirty → tmp[i]? ≠ some '\x00'

theorem getElem?_clearAndCopy (n : ℕ) (text tmp : Text) (i : ℕ) :
    (clearAndCopy n text tmp)[i]? =
      if i < text.length then text[i]? else if i < n then some '\x00' else tmp[i]? := by
  unfold clearAndCopy
  rw [List.getElem?_append]
  split
  · rfl
  · next hi =>
    rw [List.getElem?_drop, Nat.add_sub_cancel' (Nat.not_lt.mp hi), List.getElem?_append]
    split
    · next hn =>
      rw [List.length_replicate] at hn
      rw [if_pos hn, List.getElem?_replicate_of_lt hn]
    · next hn =>
      rw [List.length_replicate] at hn
      rw [if_neg hn, List.getElem?_drop, List.length_replicate,
        Nat.add_sub_cancel' (Nat.not_lt.mp hn)]

theorem length_clearAndCopy {n : ℕ} {text tmp : Text} (htmp : tmp.length = 128) (hn : n ≤ 128)
    (hlen : text.length ≤ 128) : (clearAndCopy n text tmp).length = 128 := by
  simp only [clearAndCopy, List.length_append, List.length_drop, List.length_replicate, htmp]
  omega

/-- What is read back is the text if and only if a zero stands behind it. -/
theorem cString_clearAndCopy_iff {n : ℕ} {text tmp : Text} (htmp : tmp.length = 128)
    (hn : n ≤ 128) (hlen : text.length < 128) (hnul : '\x00' ∉ text) :
    cString (clearAndCopy n text tmp) = text ↔
      (text.length < n ∨ tmp[text.length]? = some '\x00') := by
  have hbehind := getElem?_clearAndCopy n text tmp text.length
  rw [if_neg (lt_irrefl _)] at hbehind
  have hall := length_clearAndCopy htmp hn hlen.le
  obtain ⟨c, rest, hcopy⟩ : ∃ c rest, clearAndCopy n text tmp = text ++ c :: rest := by
    unfold clearAndCopy at hall ⊢
    rw [List.length_append] at hall
    obtain ⟨c, rest, hrest⟩ := List.exists_cons_of_length_pos
      (l := (List.replicate n '\x00' ++ tmp.drop n).drop text.length) (by omega)
    exact ⟨c, rest, congrArg (text ++ ·) hrest⟩
  have hc : some c = if text.length < n then some '\x00' else tmp[text.length]? := by
    rw [← hbehind, hcopy, List.getElem?_append_right le_rfl, Nat.sub_self]
    rfl
  have hread : cString (text ++ c :: rest) = text ↔ c = '\x00' := by
    constructor
    · intro h
      by_contra hne
      have hlong : cString (text ++ c :: rest) = text ++ c :: cString rest := by
        have htext := cString_of_not_mem hnul
        rw [cString] at htext ⊢
        rw [List.takeWhile_append, htext, if_pos rfl, List.takeWhile_cons,
          if_pos (by simpa using hne)]
        rfl
      have := congrArg List.length (hlong.symm.trans h)
      simp at this
    · rintro rfl
      rw [cString_append_nul, cString_of_not_mem hnul]
  rw [hcopy, hread]
  split at hc
  · next hlt => exact iff_of_true (Option.some.inj hc) (.inl hlt)
  · next hge =>
    rw [← hc, Option.some.injEq]
    exact ⟨.inr, fun h => h.resolve_left hge⟩

/-- Behind a copy that fits the buffer is zero from where `dirtied` says. -/
theorem CleanFrom.copy {n dirty : ℕ} {text tmp : Text} (h : CleanFrom dirty tmp) (hn : n ≤ 128)
    (hlen : text.length < 128) :
    CleanFrom (dirtied n dirty text.length) (clearAndCopy n text tmp) := by
  refine ⟨length_clearAndCopy h.length hn hlen.le, fun i hi hlt => ?_⟩
  have hle : text.length ≤ i ∧ (i < n ∨ dirty ≤ i) := by
    unfold dirtied at hi
    split at hi
    · exact ⟨hi, by omega⟩
    · exact ⟨by omega, by omega⟩
  rw [getElem?_clearAndCopy, if_neg (by omega)]
  split
  · rfl
  · next hge => exact h.zero i (hle.2.resolve_left hge) hlt

/-- Before that place there is still no zero. -/
theorem SoiledUpTo.copy {n dirty : ℕ} {text tmp : Text} (h : SoiledUpTo dirty tmp)
    (hn : n = 32 ∨ n = 128) (hlen : text.length < 128) (hnul : '\x00' ∉ text) :
    SoiledUpTo (dirtied n dirty text.length) (clearAndCopy n text tmp) := by
  have hle := h.le
  refine ⟨length_clearAndCopy h.length (by omega) hlen.le, ?_, fun i hi hlt => ?_⟩
  · unfold dirtied
    split
    · exact hlen.le
    · exact max_le hle hlen.le
  · rw [getElem?_clearAndCopy]
    split
    · exact fun hzero => hnul (List.mem_of_getElem? hzero)
    · next hge =>
      have hdirty : n < i + 1 ∧ i < dirty := by
        unfold dirtied at hlt
        split at hlt
        · omega
        · omega
      rw [if_neg (by omega)]
      exact h.nonzero i hi hdirty.2

/-! ## One copy -/

section Copy

variable {js : Text} {res n dirty : ℕ} {tok : JsmnToken} {w : ConfWalk}

/-- A closed token, as long as its text. -/
def Settled (js : Text) (tok : JsmnToken) : Prop := tok.len = (tok.text js).length

/-- A copy that fits is in bounds. -/
theorem copy_in_bounds (hjs : '\x00' ∉ js) (htok : Settled js tok) (hn : n ≤ 128)
    (hclean : CleanFrom dirty w.tmp) (hfits : fits n dirty (tok.text js).length = true)
    (hlog : ∀ access ∈ w.log, InBounds js res access) :
    CleanFrom (dirtied n dirty (tok.text js).length) (w.copy js n tok).tmp ∧
      ∀ access ∈ (w.copy js n tok).log, InBounds js res access := by
  obtain ⟨hlen, hroom⟩ := of_decide_eq_true hfits
  have hnul : '\x00' ∉ tok.text js := not_mem_text hjs tok
  refine ⟨hclean.copy hn hlen, fun access haccess => ?_⟩
  have hback : cString (clearAndCopy n (tok.text js) w.tmp) = tok.text js :=
    (cString_clearAndCopy_iff hclean.length hn hlen hnul).mpr
      (hroom.imp_right fun hle => hclean.zero _ hle hlen)
  rcases List.mem_cons.mp haccess with rfl | haccess
  · exact hback
  · rcases List.mem_cons.mp haccess with rfl | haccess
    · rw [InBounds, htok]
      omega
    · exact hlog access haccess

/-- A copy that does not fit is out of bounds when the buffer is as dirty as it can be. -/
theorem copy_out_of_bounds (hjs : '\x00' ∉ js) (htok : Settled js tok) (hn : n = 32 ∨ n = 128)
    (hsoiled : SoiledUpTo dirty w.tmp) (hfits : fits n dirty (tok.text js).length = false) :
    ∃ access ∈ (w.copy js n tok).log, ¬InBounds js res access := by
  have hno := of_decide_eq_false hfits
  by_cases hlen : (tok.text js).length < 128
  · refine ⟨_, List.mem_cons_self, fun hback => ?_⟩
    rcases (cString_clearAndCopy_iff hsoiled.length (by omega) hlen
      (not_mem_text hjs tok)).mp hback with hlt | hzero
    · exact hno ⟨hlen, .inl hlt⟩
    · refine hsoiled.nonzero _ ?_ ?_ hzero
      · by_contra h
        exact hno ⟨hlen, .inl (by omega)⟩
      · by_contra h
        exact hno ⟨hlen, .inr (by omega)⟩
  · refine ⟨_, List.mem_cons_of_mem _ List.mem_cons_self, ?_⟩
    rw [InBounds, htok]
    omega

end Copy

/-! ## The elements of a list -/

section Walk

variable {js : Text} (t : ℕ → JsmnToken) (dns : Dns) {res : ℕ}

theorem cleared_eq (key : ListKey) : key.cleared = 32 ∨ key.cleared = 128 := by
  cases key <;> decide

/-- Elements that fit are in bounds. -/
theorem elements_in_bounds (hjs : '\x00' ∉ js) (key : ListKey) (i : ℕ) (indices : List ℕ)
    (hindices : ∀ j ∈ indices, i + j + 2 < res ∧ Settled js (t (i + j + 2))) {dirty dirty' : ℕ}
    {w : ConfWalk} (hclean : CleanFrom dirty w.tmp)
    (hfits : elementsFit js key.cleared dirty (indices.map fun j => t (i + j + 2)) = some dirty')
    (hlog : ∀ access ∈ w.log, InBounds js res access) :
    let w' := indices.foldl (fun w j => confElement js t dns key (i + j + 2) w) w
    CleanFrom dirty' w'.tmp ∧ ∀ access ∈ w'.log, InBounds js res access := by
  induction indices generalizing w dirty with
  | nil =>
    cases hfits
    exact ⟨hclean, hlog⟩
  | cons j indices ih =>
    obtain ⟨hi, htok⟩ := hindices j List.mem_cons_self
    rw [List.map_cons, elementsFit] at hfits
    split at hfits
    · next hfit =>
      have hlog' : ∀ access ∈ ConfAccess.token (i + j + 2) :: w.log, InBounds js res access := by
        intro access haccess
        rcases List.mem_cons.mp haccess with rfl | haccess
        · exact hi
        · exact hlog access haccess
      have hn : key.cleared ≤ 128 := by
        rcases cleared_eq key with h | h <;> omega
      obtain ⟨hclean', hbounds⟩ := copy_in_bounds
        (w := { w with log := .token (i + j + 2) :: w.log }) hjs htok hn hclean hfit hlog'
      exact ih (fun k hk => hindices k (List.mem_cons_of_mem _ hk)) hclean' hfits hbounds
    · cases hfits

theorem subset_copy_log (js : Text) (n : ℕ) (tok : JsmnToken) (w : ConfWalk) :
    w.log ⊆ (w.copy js n tok).log := fun _ h =>
  List.mem_cons_of_mem _ (List.mem_cons_of_mem _ h)

/-- The log only grows. -/
theorem subset_elements_log (key : ListKey) (i : ℕ) (indices : List ℕ) (w : ConfWalk) :
    w.log ⊆ (indices.foldl (fun w j => confElement js t dns key (i + j + 2) w) w).log := by
  induction indices generalizing w with
  | nil => exact List.Subset.refl _
  | cons j indices ih =>
    refine List.Subset.trans ?_ (ih _)
    exact fun _ h => subset_copy_log js _ _ _ (List.mem_cons_of_mem _ h)

/-- When an element does not fit an access is out of bounds; when all fit the buffer is as
dirty as it can be behind them. -/
theorem elements_soiled (hjs : '\x00' ∉ js) (key : ListKey) (i : ℕ) (indices : List ℕ)
    (hindices : ∀ j ∈ indices, Settled js (t (i + j + 2))) {dirty : ℕ} {w : ConfWalk}
    (hsoiled : SoiledUpTo dirty w.tmp) :
    let w' := indices.foldl (fun w j => confElement js t dns key (i + j + 2) w) w
    match elementsFit js key.cleared dirty (indices.map fun j => t (i + j + 2)) with
    | none => ∃ access ∈ w'.log, ¬InBounds js res access
    | some dirty' => SoiledUpTo dirty' w'.tmp := by
  induction indices generalizing w dirty with
  | nil => exact hsoiled
  | cons j indices ih =>
    have htok := hindices j List.mem_cons_self
    rw [List.map_cons, elementsFit]
    by_cases hfit : fits key.cleared dirty ((t (i + j + 2)).text js).length = true
    · rw [if_pos hfit]
      exact ih (fun k hk => hindices k (List.mem_cons_of_mem _ hk))
        (hsoiled.copy (cleared_eq key) (of_decide_eq_true hfit).1 (not_mem_text hjs _))
    · rw [if_neg hfit]
      obtain ⟨access, haccess, hout⟩ := copy_out_of_bounds
        (w := { w with log := .token (i + j + 2) :: w.log }) hjs htok (cleared_eq key) hsoiled
        (by simpa using hfit)
      exact ⟨access, subset_elements_log t dns key i indices _ haccess, hout⟩

/-! ## The walk -/

theorem subset_confText_log (key : TextKey) (i : ℕ) (w : ConfWalk) :
    .token (i + 1) :: w.log ⊆ (confText js t key i w).log := by
  simp [confText]

theorem subset_confNumber_log (key : NumberKey) (i : ℕ) (w : ConfWalk) :
    .token (i + 1) :: w.log ⊆ (confNumber js t key i w).log :=
  subset_copy_log js 32 (t (i + 1)) { w with log := .token (i + 1) :: w.log }

theorem subset_confList_log (key : ListKey) (i : ℕ) (w : ConfWalk) :
    .token (i + 1) :: w.log ⊆ (confList js t dns key i w).2.log := by
  unfold confList
  dsimp only
  split
  · exact List.Subset.refl _
  · exact subset_elements_log t dns key i (List.range (t (i + 1)).size)
      { w with log := .token (i + 1) :: w.log }

theorem subset_confWalk_log (fuel i : ℕ) (w : ConfWalk) :
    w.log ⊆ (confWalk js t dns res fuel i w).2.log := by
  induction fuel generalizing i w with
  | zero => exact List.Subset.refl _
  | succ fuel ih =>
    rw [confWalk]
    have hcons : w.log ⊆ .token (i + 1) :: .token i :: w.log := by simp
    split
    · split
      · next key _ =>
        have htext := List.Subset.trans hcons (@subset_confText_log js t key i
          { w with log := .token i :: w.log })
        exact List.Subset.trans htext (ih _ _)
      · next key _ =>
        have hnumber := List.Subset.trans hcons (@subset_confNumber_log js t key i
          { w with log := .token i :: w.log })
        exact List.Subset.trans hnumber (ih _ _)
      · next key _ =>
        have hlist := List.Subset.trans hcons (@subset_confList_log js t dns key i
          { w with log := .token i :: w.log })
        dsimp only
        split
        · exact List.Subset.trans hlist (ih _ _)
        · exact hlist
      · simp
    · exact List.Subset.refl _

/-- The walk reads the token behind every key it accepts. -/
theorem value_mem_confWalk_log (fuel : ℕ) {i : ℕ} (w : ConfWalk) {kind : ConfKey} (hi : i < res)
    (hkey : confKey js (t i) = some kind) :
    .token (i + 1) ∈ (confWalk js t dns res (fuel + 1) i w).2.log := by
  rw [confWalk, if_pos hi, hkey]
  cases kind with
  | text key =>
    exact subset_confWalk_log _ _ _ _ _ (subset_confText_log _ key i _ List.mem_cons_self)
  | number key =>
    exact subset_confWalk_log _ _ _ _ _ (subset_confNumber_log _ key i _ List.mem_cons_self)
  | list key =>
    have hlist : .token (i + 1) ∈
        (confList js t dns key i { w with log := .token i :: w.log }).2.log :=
      subset_confList_log t dns key i _ List.mem_cons_self
    dsimp only
    split
    · exact subset_confWalk_log _ _ _ _ _ hlist
    · exact hlist

end Walk

section Document

variable {js : Text} {garbage : ℕ → JsmnToken} {all toks : List JsmnToken} {dns : Dns}

/-- What `jsmnParse_bounds` says about the tokens of a text. -/
def TokensSettled (js : Text) (all : List JsmnToken) : Prop :=
  ∀ k tok, all[k]? = some tok → k + tok.size < all.length ∧ Settled js tok

theorem tokensSettled_of_jsmnParse {numTokens : ℕ} (h : jsmnParse numTokens js = .ok all) :
    TokensSettled js all := by
  intro k tok htok
  obtain ⟨hsize, e, he, hstart, hend⟩ := jsmnParse_bounds h htok
  refine ⟨hsize, ?_⟩
  simp only [Settled, JsmnToken.len, JsmnToken.text, he, Option.getD_some, List.length_take,
    List.length_drop]
  omega

theorem TokensSettled.of_drop {i : ℕ} {tok : JsmnToken} {rest : List JsmnToken}
    (h : TokensSettled js all) (hdrop : all.drop i = tok :: rest) :
    tok.size ≤ rest.length ∧ Settled js tok := by
  have hget : all[i]? = some tok := by
    have hhead : (all.drop i)[0]? = some tok := by rw [hdrop]; rfl
    rwa [List.getElem?_drop, Nat.add_zero] at hhead
  obtain ⟨hsize, hsettled⟩ := h i tok hget
  have hlen := congrArg List.length hdrop
  rw [List.length_drop, List.length_cons] at hlen
  exact ⟨by omega, hsettled⟩

theorem TokensSettled.at {k : ℕ} (h : TokensSettled js all) (hk : k < all.length) :
    Settled js (tokenArray garbage all k) := by
  have hget := List.getElem?_eq_getElem hk
  rw [tokenArray, List.getD_eq_getElem?_getD, hget]
  exact (h k _ hget).2

/-- The elements of an array are tokens there are. -/
theorem TokensSettled.elements {i : ℕ} {arr : JsmnToken} {rest : List JsmnToken}
    (h : TokensSettled js all) (hdrop : all.drop (i + 1) = arr :: rest) :
    elementTokens (tokenArray garbage all) i = rest.take arr.size ∧
      (∀ j ∈ List.range arr.size,
        i + j + 2 < all.length ∧ Settled js (tokenArray garbage all (i + j + 2))) ∧
      all.drop (i + arr.size + 2) = rest.drop arr.size := by
  have hle := (h.of_drop hdrop).1
  have harr : tokenArray garbage all (i + 1) = arr := tokenArray_of_drop hdrop
  have hdrop2 : all.drop (i + 2) = rest := drop_succ_of_drop hdrop
  refine ⟨?_, fun j hj => ?_, ?_⟩
  · refine elementTokens_eq (hdrop2.trans (List.take_append_drop arr.size rest).symm) ?_
    · rw [harr, List.length_take, min_eq_left hle]
  · have hlt := List.mem_range.mp hj
    have hlen := congrArg List.length hdrop2
    rw [List.length_drop] at hlen
    have hk : i + j + 2 < all.length := by omega
    exact ⟨hk, h.at hk⟩
  · rw [Nat.add_right_comm, ← List.drop_drop, hdrop2]

/-- INTERNAL: The walk over tokens that fit stays in bounds.
SOURCE: conf.c:838-1003 -/
theorem walk_in_bounds (hjs : '\x00' ∉ js) (hall : TokensSettled js all) {fuel i dirty : ℕ}
    {w : ConfWalk} (hdrop : all.drop i = toks) (hclean : CleanFrom dirty w.tmp)
    (hfits : documentFits js fuel dirty toks = true)
    (hlog : ∀ access ∈ w.log, InBounds js all.length access) :
    ∀ access ∈ (confWalk js (tokenArray garbage all) dns all.length fuel i w).2.log,
      InBounds js all.length access := by
  induction fuel generalizing i dirty w toks with
  | zero => exact hlog
  | succ fuel ih =>
    rw [confWalk]
    split
    · next hi =>
      obtain ⟨key, toks, rfl⟩ := exists_cons_of_drop hi hdrop
      have hkeyAt : tokenArray garbage all i = key := tokenArray_of_drop hdrop
      have hdrop1 := drop_succ_of_drop hdrop
      have hlog0 : ∀ access ∈ ConfAccess.token i :: w.log, InBounds js all.length access :=
        List.forall_mem_cons.mpr ⟨hi, hlog⟩
      rw [documentFits] at hfits
      rw [hkeyAt]
      cases hkey : confKey js key with
      | none => exact hlog0
      | some kind =>
        simp only [hkey] at hfits ⊢
        -- every key has a value
        obtain ⟨value, toks, rfl⟩ : ∃ value rest, toks = value :: rest := by
          refine List.exists_cons_of_ne_nil fun hnil => ?_
          simp [hnil] at hfits
        have hi1 := lt_length_of_drop hdrop1
        have hvalueAt : tokenArray garbage all (i + 1) = value := tokenArray_of_drop hdrop1
        have hdrop2 := drop_succ_of_drop hdrop1
        obtain ⟨hsize, hsettled⟩ := hall.of_drop hdrop1
        have hlog1 : ∀ access ∈ ConfAccess.token (i + 1) :: ConfAccess.token i :: w.log,
            InBounds js all.length access := List.forall_mem_cons.mpr ⟨hi1, hlog0⟩
        cases kind with
        | text key =>
          refine ih hdrop2 hclean hfits ?_
          obtain ⟨hfirst, hrest⟩ := List.forall_mem_cons.mp hlog1
          exact List.forall_mem_cons.mpr ⟨hfirst, List.forall_mem_cons.mpr ⟨trivial, hrest⟩⟩
        | number key =>
          simp only [Bool.and_eq_true] at hfits
          obtain ⟨hclean', hbounds⟩ := copy_in_bounds
            (w := { w with log := .token (i + 1) :: .token i :: w.log }) hjs hsettled (by decide)
            hclean hfits.1 hlog1
          rw [← hvalueAt] at hclean' hbounds
          exact ih hdrop2 hclean' (by rw [hvalueAt]; exact hfits.2) hbounds
        | list key =>
          dsimp only at hfits ⊢
          obtain ⟨helements, hindices, hnext⟩ := hall.elements hdrop1
          by_cases harray : value.type = .array
          · simp only [harray, ne_eq, not_true_eq_false, if_false] at hfits
            split at hfits
            · cases hfits
            · next dirty' hdirty' =>
              rw [← helements, elementTokens, hvalueAt] at hdirty'
              have hbounds := elements_in_bounds (tokenArray garbage all) dns
                (w := { w with log := .token (i + 1) :: .token i :: w.log }) hjs key i
                (List.range value.size) hindices hclean hdirty' hlog1
              simp only [confList, hvalueAt, harray, ne_eq, not_true_eq_false, if_false, if_true]
              exact ih hnext hbounds.1 hfits hbounds.2
          · simp only [confList, hvalueAt, ne_eq, harray, not_false_eq_true, if_true]
            exact hlog1
    · exact hlog

/-- INTERNAL: The walk over tokens that do not fit leaves the bounds when the buffer is as dirty
as it can be.
SOURCE: conf.c:838-1003 -/
theorem walk_out_of_bounds (hjs : '\x00' ∉ js) (hall : TokensSettled js all) {fuel i dirty : ℕ}
    {w : ConfWalk} (hdrop : all.drop i = toks) (hsoiled : SoiledUpTo dirty w.tmp)
    (hfits : documentFits js fuel dirty toks = false) :
    ∃ access ∈ (confWalk js (tokenArray garbage all) dns all.length fuel i w).2.log,
      ¬InBounds js all.length access := by
  induction fuel generalizing i dirty w toks with
  | zero => cases hfits
  | succ fuel ih =>
    cases toks with
    | nil => cases hfits
    | cons key toks =>
      have hi := lt_length_of_drop hdrop
      have hkeyAt : tokenArray garbage all i = key := tokenArray_of_drop hdrop
      have hdrop1 := drop_succ_of_drop hdrop
      rw [documentFits] at hfits
      cases hkey : confKey js key with
      | none => simp [hkey] at hfits
      | some kind =>
        simp only [hkey] at hfits
        cases toks with
        | nil =>
          -- the value of the last key is behind the tokens
          have hout : ¬InBounds js all.length (.token (i + 1)) := by
            have hend := List.drop_eq_nil_iff.mp hdrop1
            exact Nat.not_lt.mpr hend
          have hread := value_mem_confWalk_log (tokenArray garbage all) dns fuel w hi
            (by rw [hkeyAt, hkey])
          exact ⟨_, hread, hout⟩
        | cons value toks =>
          have hvalueAt : tokenArray garbage all (i + 1) = value := tokenArray_of_drop hdrop1
          have hdrop2 := drop_succ_of_drop hdrop1
          have hsettled := (hall.of_drop hdrop1).2
          rw [confWalk, if_pos hi, hkeyAt]
          simp only [hkey]
          cases kind with
          | text key => exact ih hdrop2 hsoiled hfits
          | number key =>
            simp only [confNumber, hvalueAt]
            dsimp only at hfits
            cases hfit : fits 32 dirty (value.text js).length with
            | false =>
              obtain ⟨access, haccess, hout⟩ := copy_out_of_bounds
                (w := { w with log := .token (i + 1) :: .token i :: w.log }) hjs hsettled
                (.inl rfl) hsoiled hfit
              exact ⟨access, subset_confWalk_log _ _ _ _ _ haccess, hout⟩
            | true =>
              rw [hfit, Bool.true_and] at hfits
              exact ih hdrop2
                (hsoiled.copy (.inl rfl) (of_decide_eq_true hfit).1 (not_mem_text hjs value)) hfits
          | list key =>
            obtain ⟨helements, hindices, hnext⟩ := hall.elements hdrop1
            by_cases harray : value.type = .array
            · have hsoils := @elements_soiled js (tokenArray garbage all) dns all.length hjs key i
                (List.range value.size) (fun j hj => (hindices j hj).2) dirty
                { w with log := .token (i + 1) :: .token i :: w.log } hsoiled
              simp only [harray, ne_eq, not_true_eq_false, if_false] at hfits
              simp only [confList, hvalueAt, harray, ne_eq, not_true_eq_false, if_false, if_true]
              rw [← helements, elementTokens, hvalueAt] at hfits
              cases hall' : elementsFit js key.cleared dirty
                  ((List.range value.size).map fun j => tokenArray garbage all (i + j + 2)) with
              | none =>
                rw [hall'] at hsoils
                obtain ⟨access, haccess, hout⟩ := hsoils
                exact ⟨access, subset_confWalk_log _ _ _ _ _ haccess, hout⟩
              | some dirty' =>
                rw [hall'] at hsoils hfits
                exact ih hnext hsoils hfits
            · simp [harray] at hfits

end Document

/-! ## The call -/

/-- **The accesses of a call are in bounds**, whatever stands in its memory, if and only if the
document it gets fits.
SOURCE: conf.c:794-1004 -/
theorem in_bounds_iff (m : ConfMoment) (c : ServerConfig) :
    (∀ tmp garbage, tmp.length = 128 →
        AccessesInBounds { m with tmp := tmp, garbage := garbage } c) ↔
      ∀ json, serverDocument m c = some json → FitsBuffer json := by
  constructor
  · intro hbounds json hdoc
    unfold FitsBuffer
    split
    · next tok toks hparse =>
      intro hobject
      by_contra hfits
      have hsoiled : SoiledUpTo 128 (List.replicate 128 'x') := by
        refine ⟨by simp, le_rfl, fun i _ hi => ?_⟩
        rw [List.getElem?_replicate_of_lt hi]
        decide
      obtain ⟨access, haccess, hout⟩ := walk_out_of_bounds (i := 1)
        (w := { applied := { config := c }, tmp := List.replicate 128 'x', log := [.token 0] })
        (not_mem_serverDocument hdoc) (tokensSettled_of_jsmnParse hparse) rfl hsoiled
        (by simpa using hfits)
      have hin := hbounds (List.replicate 128 'x') m.garbage (by simp) json hdoc
      simp only [confFromJson, hparse, hobject, ne_eq, not_true_eq_false, if_false] at hin
      exact hout (hin access haccess)
    · trivial
  · intro hfits tmp garbage htmp json hdoc access haccess
    have hfit := hfits json hdoc
    unfold confFromJson at haccess ⊢
    dsimp only at haccess ⊢
    split at haccess
    · cases haccess
    · cases haccess
    · next tok toks hparse =>
      simp only [FitsBuffer, hparse] at hfit
      have hfirst : InBounds json (toks.length + 1) (.token 0) := Nat.succ_pos _
      split at haccess
      · next hobject =>
        rw [if_pos hobject]
        rw [List.mem_singleton.mp haccess]
        exact hfirst
      · next hobject =>
        rw [if_neg hobject]
        have hclean : CleanFrom 128 tmp := ⟨htmp, fun i hi hlt => by omega⟩
        exact walk_in_bounds (not_mem_serverDocument hdoc) (tokensSettled_of_jsmnParse hparse) rfl
          hclean
          (hfit (not_not.mp hobject)) (by simpa using hfirst) access haccess

/-- `{"maxClients"}` -/
def keyAlone : Text := "\x7b\"maxClients\"\x7d".toList

/-- A key without a value: the walk reads the token behind the last one. -/
theorem not_in_bounds :
    ¬∀ (m : ConfMoment) (c : ServerConfig), m.tmp.length = 128 → AccessesInBounds m c := by
  intro hall
  have hdoc : serverDocument (answeredMoment keyAlone) {} = some keyAlone := by decide +kernel
  have hlog : ∃ access ∈ (confFromJson (answeredMoment keyAlone) keyAlone {}).2.2.log,
      ¬InBounds keyAlone (confFromJson (answeredMoment keyAlone) keyAlone {}).1 access := by
    decide +kernel
  obtain ⟨access, haccess, hout⟩ := hlog
  exact hout (hall (answeredMoment keyAlone) {} rfl keyAlone hdoc access haccess)

end WifiCat.Analysis
