import WifiCat.Analysis.FlatDocument
import WifiCat.Analysis.ServerBounds
import WifiCat.Analysis.ServerChanges

/-!
# Applying a document twice

A document that has been applied changes nothing when it is applied again, because the pairs it
is read as do not (`applyPairs_twice`).  That the second call reads the same pairs, whatever its
buffers hold, is `walk_agrees`: it is here that the lengths of the tokens count.  Both calls have a
result exactly when the first one does nothing that C leaves undefined, and the document and the
text fields that still point to a literal decide this (`document_applied_twice_iff`).
-/

set_option autoImplicit false

namespace WifiCat.Analysis

open Scan WifiCat

/-! ## What the two calls read -/

/-- The text of an element is read whole: a free domain when it has room in the buffer at all,
an address when it has at most 31 bytes. -/
def elementShort (js : Text) (key : ListKey) (g : JsmnToken) : Bool :=
  decide (key = .freeDomainList ∨ (g.text js).length ≤ 31)

/-- Up to the first key that is rejected the numbers and the addresses have at most 31 bytes;
the tokens are those from a key on. -/
def shortTokens (js : Text) : ℕ → List JsmnToken → Bool
  | 0, _ => true
  | _ + 1, [] => true
  | fuel + 1, key :: toks =>
    match confKey js key with
    | none => true
    | some kind =>
      match toks with
      | [] => true
      | value :: toks =>
        match kind with
        | .text _ => shortTokens js fuel toks
        | .number _ => decide ((value.text js).length ≤ 31) && shortTokens js fuel toks
        | .list key =>
          if value.type ≠ .array then true
          else
            (toks.take value.size).all (elementShort js key) &&
              shortTokens js fuel (toks.drop value.size)

/-- The numbers, the IP addresses and the MAC addresses of a document have at most 31 bytes. -/
def ShortTokens (json : Text) : Prop :=
  match jsmnParse 256 json with
  | .ok (tok :: toks) => tok.type = .object → shortTokens json (toks.length + 1) toks = true
  | _ => True

instance (json : Text) : Decidable (ShortTokens json) :=
  match h : jsmnParse 256 json with
  | .ok (tok :: toks) =>
    decidable_of_iff (tok.type = .object → shortTokens json (toks.length + 1) toks = true)
      (by simp only [ShortTokens, h])
  | .ok [] => isTrue (by simp only [ShortTokens, h])
  | .error _ => isTrue (by simp only [ShortTokens, h])

/-- The copy of a text has room in the buffer. -/
def copyFits (js : Text) (tok : JsmnToken) : Bool := decide ((tok.text js).length < 128)

/-- Up to the first key that is rejected every key has a value, no text field that still points to
a literal is set, and what is copied has room in the buffer; the tokens are those from a key on. -/
def documentDefined (js : Text) (literal : TextKey → Bool) : ℕ → List JsmnToken → Bool
  | 0, _ => true
  | _ + 1, [] => true
  | fuel + 1, key :: toks =>
    match confKey js key with
    | none => true
    | some kind =>
      match toks with
      | [] => false
      | value :: toks =>
        match kind with
        | .text key => !literal key && documentDefined js literal fuel toks
        | .number _ => copyFits js value && documentDefined js literal fuel toks
        | .list _ =>
          if value.type ≠ .array then true
          else
            (toks.take value.size).all (copyFits js) &&
              documentDefined js literal fuel (toks.drop value.size)

/-- Applying a document that is tokenized to an object does nothing that is undefined. -/
def DefinedDocument (json : Text) (c : ServerConfig) : Prop :=
  match jsmnParse 256 json with
  | .ok (tok :: toks) =>
    tok.type = .object → documentDefined json c.literal (toks.length + 1) toks = true
  | _ => True

instance (json : Text) (c : ServerConfig) : Decidable (DefinedDocument json c) :=
  match h : jsmnParse 256 json with
  | .ok (tok :: toks) =>
    decidable_of_iff
      (tok.type = .object → documentDefined json c.literal (toks.length + 1) toks = true)
      (by simp only [DefinedDocument, h])
  | .ok [] => isTrue (by simp only [DefinedDocument, h])
  | .error _ => isTrue (by simp only [DefinedDocument, h])

section Walk

variable {js : Text} {res : ℕ} (dns : Dns) {t t' : ℕ → JsmnToken}

/-! ## When the walk is defined -/

theorem Settled.copyFits {tok : JsmnToken} (h : Settled js tok) :
    decide (0 ≤ tok.len ∧ tok.len < 128) = WifiCat.Analysis.copyFits js tok := by
  rw [Settled] at h
  unfold WifiCat.Analysis.copyFits
  exact decide_eq_decide.mpr (by omega)

theorem literal_confNumber (key : NumberKey) (i : ℕ) (w : ConfWalk) :
    (confNumber js t key i w).applied.config.literal = w.applied.config.literal := by
  cases key <;> rfl

theorem literal_confList (key : ListKey) (i : ℕ) (w : ConfWalk) :
    (confList js t dns key i w).2.applied.config.literal = w.applied.config.literal := by
  have hreads := confList_reads js t dns key i w
  dsimp only at hreads
  split at hreads
  · obtain ⟨-, -, happlied⟩ := hreads
    rw [happlied]
    exact addAll_literal dns key _ _
  · rw [hreads.2]

/-- INTERNAL: an array is added without doing anything that is undefined exactly when its elements
have room in the buffer.
SOURCE: conf.c:933-1000 -/
theorem confList_defined {garbage : ℕ → JsmnToken} {all toks : List JsmnToken} {value : JsmnToken}
    (hall : TokensSettled js all) {i : ℕ} (hdrop : all.drop (i + 1) = value :: toks)
    (harray : value.type = .array) (key : ListKey) (w : ConfWalk) :
    (confList js (tokenArray garbage all) dns key i w).2.log.all (ConfAccess.defined all.length) =
      ((toks.take value.size).all (copyFits js) && w.log.all (ConfAccess.defined all.length)) := by
  have hvalueAt : tokenArray garbage all (i + 1) = value := tokenArray_of_drop hdrop
  obtain ⟨helements, hindices, -⟩ := @TokensSettled.elements js garbage _ _ _ _ hall hdrop
  have hroom : i + 1 + (tokenArray garbage all (i + 1)).size < all.length := by
    have hsize := (hall.of_drop hdrop).1
    have hcount := congrArg List.length (drop_succ_of_drop hdrop)
    rw [List.length_drop] at hcount
    have hlt := lt_length_of_drop hdrop
    rw [hvalueAt]
    omega
  have hfits : (toks.take value.size).all (fun tok => decide (0 ≤ tok.len ∧ tok.len < 128)) =
      (toks.take value.size).all (copyFits js) := by
    rw [← helements, elementTokens, hvalueAt, List.all_map, List.all_map]
    rw [Bool.eq_iff_iff, List.all_eq_true, List.all_eq_true]
    refine forall₂_congr fun j hj => ?_
    dsimp only [Function.comp]
    rw [(hindices j hj).2.copyFits]
  rw [confList_log _ _ _ _ _ _ (hvalueAt ▸ harray) hroom, helements, hfits]

/-- INTERNAL: what the walk does is defined exactly when what it did before was and the document
is.  A text field that is set no longer points to a literal, and one that points to a literal is
not set, so the fields are the same all the way.
SOURCE: conf.c:838-1003 -/
theorem walk_defined {garbage : ℕ → JsmnToken} {all toks : List JsmnToken}
    (hall : TokensSettled js all) {fuel i : ℕ} {w : ConfWalk} (hdrop : all.drop i = toks) :
    (confWalk js (tokenArray garbage all) dns all.length fuel i w).2.log.all
        (ConfAccess.defined all.length) =
      (w.log.all (ConfAccess.defined all.length) &&
        documentDefined js w.applied.config.literal fuel toks) := by
  induction fuel generalizing i w toks with
  | zero => exact (Bool.and_true _).symm
  | succ fuel ih =>
    by_cases hi : i < all.length
    · obtain ⟨key, toks, rfl⟩ := exists_cons_of_drop hi hdrop
      have hkeyAt : tokenArray garbage all i = key := tokenArray_of_drop hdrop
      have hdrop1 := drop_succ_of_drop hdrop
      have hlog : (ConfAccess.token i :: w.log).all (ConfAccess.defined all.length) =
          w.log.all (ConfAccess.defined all.length) := by
        rw [List.all_cons, ConfAccess.defined, decide_eq_true hi, Bool.true_and]
      rw [documentDefined]
      cases hkey : confKey js key with
      | none =>
        rw [confWalk, if_pos hi, hkeyAt]
        simp only [hkey, hlog, Bool.and_true]
      | some kind =>
        cases toks with
        | nil =>
          -- the value of the last key is behind the tokens
          have hread := value_mem_confWalk_log (tokenArray garbage all) dns fuel w hi
            (by rw [hkeyAt, hkey])
          have hend : ¬i + 1 < all.length := Nat.not_lt.mpr (List.drop_eq_nil_iff.mp hdrop1)
          simp only [Bool.and_false]
          exact List.all_eq_false.mpr ⟨_, hread, by simpa [ConfAccess.defined] using hend⟩
        | cons value toks =>
          have hi1 := lt_length_of_drop hdrop1
          have hvalueAt : tokenArray garbage all (i + 1) = value := tokenArray_of_drop hdrop1
          have hdrop2 := drop_succ_of_drop hdrop1
          have hsettled := (hall.of_drop hdrop1).2
          rw [confWalk, if_pos hi, hkeyAt]
          simp only [hkey]
          cases kind with
          | text key =>
            dsimp only
            rw [ih hdrop2, confText_log _ _ _ _ _ hi1, hlog]
            dsimp only [confText]
            rw [literal_assign]
            cases hliteral : w.applied.config.literal key with
            | true => simp
            | false =>
              rw [← hliteral, Function.update_eq_self, hliteral]
              simp
          | number key =>
            dsimp only
            rw [ih hdrop2, confNumber_log _ _ _ _ _ hi1, hlog, literal_confNumber, hvalueAt,
              hsettled.copyFits, Bool.and_left_comm, Bool.and_assoc]
          | list key =>
            dsimp only
            obtain ⟨-, -, hnext⟩ := @TokensSettled.elements js garbage _ _ _ _ hall hdrop1
            by_cases harray : value.type = .array
            · have hok := confList_reads js (tokenArray garbage all) dns key i
                { w with log := .token i :: w.log }
              dsimp only at hok
              rw [hvalueAt, if_pos harray] at hok
              rw [if_pos hok.1, hvalueAt, ih hnext, confList_defined dns hall hdrop1 harray, hlog,
                literal_confList, if_neg (not_not.mpr harray), Bool.and_left_comm, Bool.and_assoc]
            · have hnot : confList js (tokenArray garbage all) dns key i
                  { w with log := .token i :: w.log } =
                    (false, { w with log := .token (i + 1) :: .token i :: w.log }) := by
                simp [confList, hvalueAt, harray]
              rw [hnot, if_neg Bool.false_ne_true, if_pos harray, List.all_cons, hlog,
                ConfAccess.defined, decide_eq_true hi1, Bool.true_and, Bool.and_true]
    · have hnil : toks = [] := by
        rw [← hdrop, List.drop_eq_nil_iff]
        omega
      rw [confWalk, if_neg hi, hnil, documentDefined, Bool.and_true]

/-! ## What the two walks do -/

/-- All accesses of a log are defined. -/
def LogDefined (res : ℕ) (log : List ConfAccess) : Prop :=
  ∀ access ∈ log, access.defined res = true

theorem LogDefined.of_subset {log log' : List ConfAccess} (h : LogDefined res log')
    (hsub : log ⊆ log') : LogDefined res log := fun access haccess => h access (hsub haccess)

theorem LogDefined.cons {log : List ConfAccess} {access : ConfAccess} (h : LogDefined res log)
    (haccess : access.defined res = true) : LogDefined res (access :: log) :=
  List.forall_mem_cons.mpr ⟨haccess, h⟩

/-- When a copy is defined it has room in the buffer, and another copy of the token is defined
as well. -/
theorem LogDefined.copy {w : ConfWalk} {n : ℕ} {tok : JsmnToken}
    (h : LogDefined res (w.copy js n tok).log) (w' : ConfWalk) (h' : LogDefined res w'.log) :
    (0 ≤ tok.len ∧ tok.len < 128) ∧ LogDefined res (w'.copy js n tok).log := by
  have hcopy : (ConfAccess.copy tok.len).defined res = true :=
    h _ (List.mem_cons_of_mem _ List.mem_cons_self)
  exact ⟨of_decide_eq_true hcopy, (h'.cons hcopy).cons rfl⟩

/-- An element that is short is added as it stands in the document. -/
theorem applied_confElement (hjs : '\x00' ∉ js) {key : ListKey} {g : ℕ} {w : ConfWalk}
    (htok : Settled js (t g)) (hlen : (t g).len < 128) (hshort : elementShort js key (t g) = true) :
    (confElement js t dns key g w).applied = key.add dns ((t g).text js) w.applied := by
  have hcleared : ((t g).text js).length < key.cleared := by
    rw [Settled] at htok
    cases key with
    | freeDomainList =>
      simp only [ListKey.cleared]
      omega
    | freeIPList | blockedMACList | trustedMACList =>
      have h31 := (of_decide_eq_true hshort).resolve_left (by decide)
      simp only [ListKey.cleared]
      omega
  have hread := cString_clearAndCopy hcleared (not_mem_text hjs (t g)) w.tmp
  simp only [confElement, ConfWalk.copy, hread]

/-- When the elements of a list are copied and this is defined, so it is for another buffer,
and both times the texts of the document are added. -/
theorem elements_agree (hjs : '\x00' ∉ js) (key : ListKey) (i : ℕ) (indices : List ℕ)
    (hindices : ∀ j ∈ indices, i + j + 2 < res ∧ t' (i + j + 2) = t (i + j + 2) ∧
      Settled js (t (i + j + 2)) ∧ elementShort js key (t (i + j + 2)) = true)
    {w : ConfWalk} (w' : ConfWalk)
    (h : LogDefined res (indices.foldl (fun w j => confElement js t dns key (i + j + 2) w) w).log)
    (h' : LogDefined res w'.log) :
    let texts := indices.map fun j => (t (i + j + 2)).text js
    let out := indices.foldl (fun w j => confElement js t dns key (i + j + 2) w) w
    let out' := indices.foldl (fun w j => confElement js t' dns key (i + j + 2) w) w'
    LogDefined res out'.log ∧
      out.applied = (ConfPair.list key texts).apply dns w.applied ∧
      out'.applied = (ConfPair.list key texts).apply dns w'.applied := by
  induction indices generalizing w w' with
  | nil => exact ⟨h', rfl, rfl⟩
  | cons j indices ih =>
    obtain ⟨⟨hj, hsame, htok, hshort⟩, hrest⟩ := List.forall_mem_cons.mp hindices
    have hstep : LogDefined res (confElement js t dns key (i + j + 2) w).log :=
      h.of_subset (subset_elements_log t dns key i indices _)
    have htoken : LogDefined res (ConfAccess.token (i + j + 2) :: w'.log) :=
      h'.cons (decide_eq_true hj)
    obtain ⟨hlen, hcopy⟩ := LogDefined.copy hstep
      { w' with log := .token (i + j + 2) :: w'.log } htoken
    have hstep' : LogDefined res (confElement js t' dns key (i + j + 2) w').log := by
      rw [confElement, hsame]
      exact hcopy
    obtain ⟨hlog, happ, happ'⟩ := ih hrest _ h hstep'
    refine ⟨hlog, ?_, ?_⟩
    · refine happ.trans ?_
      rw [applied_confElement dns hjs htok hlen.2 hshort]
      rfl
    · refine happ'.trans ?_
      have helement := applied_confElement dns (w := w') hjs (hsame ▸ htok)
        (hsame ▸ hlen.2) (hsame ▸ hshort)
      rw [helement, hsame]
      rfl

/-- The same pair has been applied in two walks, and what the second has done is defined. -/
structure SamePair (res : ℕ) (a a' : Applied) (v v' : ConfWalk) : Prop where
  log : LogDefined res v'.log
  applied : ∃ pair : ConfPair, v.applied = pair.apply dns a ∧ v'.applied = pair.apply dns a'

theorem text_agrees (key : TextKey) {i : ℕ} {w : ConfWalk} (w' : ConfWalk) (hi : i + 1 < res)
    (hsame : t' (i + 1) = t (i + 1)) (h : LogDefined res (confText js t key i w).log)
    (h' : LogDefined res w'.log)
    (hliteral : ∀ key, w'.applied.config.literal key = true →
      w.applied.config.literal key = true) :
    SamePair dns res w.applied w'.applied (confText js t key i w) (confText js t' key i w') := by
  have hfree : w.applied.config.literal key = false := by
    simpa [ConfAccess.defined] using h _ (List.mem_cons_of_mem _ List.mem_cons_self)
  have hfree' : w'.applied.config.literal key = false := by
    by_contra hne
    rw [hliteral key (by simpa using hne)] at hfree
    cases hfree
  refine ⟨(h'.cons ?_).cons (decide_eq_true hi), .text key ((t (i + 1)).text js), rfl, ?_⟩
  · simp [ConfAccess.defined, hfree']
  · rw [confText, hsame]
    rfl

theorem number_agrees (hjs : '\x00' ∉ js) (key : NumberKey) {i : ℕ} {w : ConfWalk}
    (w' : ConfWalk) (hi : i + 1 < res) (hsame : t' (i + 1) = t (i + 1))
    (hshort : ((t (i + 1)).text js).length ≤ 31) (h : LogDefined res (confNumber js t key i w).log)
    (h' : LogDefined res w'.log) :
    SamePair dns res w.applied w'.applied (confNumber js t key i w) (confNumber js t' key i w') := by
  have hread : ∀ tmp, cString (clearAndCopy 32 ((t (i + 1)).text js) tmp) = (t (i + 1)).text js :=
    cString_clearAndCopy (by omega) (not_mem_text hjs _)
  obtain ⟨-, hcopy⟩ := LogDefined.copy (w := { w with log := .token (i + 1) :: w.log }) h
    { w' with log := .token (i + 1) :: w'.log } (h'.cons (decide_eq_true hi))
  refine ⟨?_, .number key ((t (i + 1)).text js), ?_, ?_⟩
  · rw [confNumber, hsame]
    exact hcopy
  · simp only [confNumber, ConfWalk.copy, hread]
    rfl
  · simp only [confNumber, ConfWalk.copy, hsame, hread]
    rfl

theorem list_agrees (hjs : '\x00' ∉ js) (key : ListKey) {i : ℕ} {w : ConfWalk} (w' : ConfWalk)
    (hi : i + 1 < res) (hsame : t' (i + 1) = t (i + 1)) (harray : (t (i + 1)).type = .array)
    (hindices : ∀ j ∈ List.range (t (i + 1)).size, i + j + 2 < res ∧
      t' (i + j + 2) = t (i + j + 2) ∧ Settled js (t (i + j + 2)) ∧
      elementShort js key (t (i + j + 2)) = true)
    (h : LogDefined res (confList js t dns key i w).2.log) (h' : LogDefined res w'.log) :
    (confList js t dns key i w).1 = true ∧ (confList js t' dns key i w').1 = true ∧
      SamePair dns res w.applied w'.applied (confList js t dns key i w).2 (confList js t' dns key i w').2 := by
  simp only [confList, hsame, harray, ne_eq, not_true_eq_false, if_false, true_and] at h ⊢
  obtain ⟨hlog, happ, happ'⟩ := elements_agree dns hjs key i _ hindices
    { w' with log := .token (i + 1) :: w'.log } h (h'.cons (decide_eq_true hi))
  exact ⟨hlog, _, happ, happ'⟩

theorem tokenArray_congr {garbage garbage' : ℕ → JsmnToken} {all : List JsmnToken} {k : ℕ}
    (hk : k < all.length) : tokenArray garbage' all k = tokenArray garbage all k := by
  simp [tokenArray, hk]

/-- Two walks return the same after the same pairs, and what the second has done is defined. -/
structure SameWalk (res : ℕ) (a a' : Applied) (out out' : ℤ × ConfWalk) : Prop where
  ret : out'.1 = out.1
  log : LogDefined res out'.2.log
  applied : ∃ pairs, out.2.applied = applyPairs dns pairs a ∧
    out'.2.applied = applyPairs dns pairs a'

variable {dns} in
/-- A pair is applied, and then the rest. -/
theorem SamePair.walk {a a' : Applied} {v v' : ConfWalk} {out out' : ℤ × ConfWalk}
    (hpair : SamePair dns res a a' v v') (h : SameWalk dns res v.applied v'.applied out out') :
    SameWalk dns res a a' out out' := by
  obtain ⟨pair, hone, hone'⟩ := hpair.applied
  obtain ⟨pairs, hpairs, hpairs'⟩ := h.applied
  refine ⟨h.ret, h.log, pair :: pairs, ?_, ?_⟩
  · rw [hpairs, hone, applyPairs_cons]
  · rw [hpairs', hone', applyPairs_cons]

variable {dns} in
/-- The second walk still frees no literal the first does not. -/
theorem SamePair.literal {a a' : Applied} {v v' : ConfWalk} (hpair : SamePair dns res a a' v v')
    (h : ∀ key, a'.config.literal key = true → a.config.literal key = true) :
    ∀ key, v'.applied.config.literal key = true → v.applied.config.literal key = true := by
  obtain ⟨pair, hone, hone'⟩ := hpair.applied
  rw [hone, hone']
  exact literal_apply_mono dns pair h

/-- The elements of an array are read alike by two walks over the tokens of a document, and
their texts are those behind the array. -/
theorem settled_elements {garbage garbage' : ℕ → JsmnToken} {all toks : List JsmnToken} {i : ℕ}
    {value : JsmnToken} {key : ListKey} (hall : TokensSettled js all)
    (hdrop : all.drop (i + 1) = value :: toks)
    (hshort : (toks.take value.size).all (elementShort js key) = true) :
    ∀ j ∈ List.range value.size, i + j + 2 < all.length ∧
      tokenArray garbage' all (i + j + 2) = tokenArray garbage all (i + j + 2) ∧
      Settled js (tokenArray garbage all (i + j + 2)) ∧
      elementShort js key (tokenArray garbage all (i + j + 2)) = true := by
  obtain ⟨helements, hindices, -⟩ :=
    @TokensSettled.elements js garbage all i value toks hall hdrop
  have hvalue : tokenArray garbage all (i + 1) = value := tokenArray_of_drop hdrop
  rw [← helements, elementTokens, hvalue, List.all_map, List.all_eq_true] at hshort
  intro j hj
  obtain ⟨hlt, hset⟩ := hindices j hj
  exact ⟨hlt, tokenArray_congr hlt, hset, hshort j hj⟩

/-- INTERNAL: Two walks over the same tokens, of which the first is defined and the second frees
no literal the first does not free: the second is defined, and both apply the same pairs and
return the same.
SOURCE: conf.c:838-1003 -/
theorem walk_agrees {garbage garbage' : ℕ → JsmnToken} {all toks : List JsmnToken}
    (hjs : '\x00' ∉ js) (hall : TokensSettled js all) {fuel i : ℕ} {w w' : ConfWalk}
    (hdrop : all.drop i = toks) (hshort : shortTokens js fuel toks = true)
    (h : LogDefined all.length
      (confWalk js (tokenArray garbage all) dns all.length fuel i w).2.log)
    (h' : LogDefined all.length w'.log)
    (hliteral : ∀ key, w'.applied.config.literal key = true →
      w.applied.config.literal key = true) :
    SameWalk dns all.length w.applied w'.applied
      (confWalk js (tokenArray garbage all) dns all.length fuel i w)
      (confWalk js (tokenArray garbage' all) dns all.length fuel i w') := by
  induction fuel generalizing i w w' toks with
  | zero => exact ⟨rfl, h', [], rfl, rfl⟩
  | succ fuel ih =>
    by_cases hi : i < all.length
    · obtain ⟨key, toks, rfl⟩ := exists_cons_of_drop hi hdrop
      have hkeyAt : ∀ garbage, tokenArray garbage all i = key := fun _ => tokenArray_of_drop hdrop
      have hdrop1 := drop_succ_of_drop hdrop
      have hlog0 : LogDefined all.length (ConfAccess.token i :: w'.log) :=
        h'.cons (decide_eq_true hi)
      have hvalue : ∀ kind, confKey js key = some kind → i + 1 < all.length := by
        intro kind hkey
        have hmem := value_mem_confWalk_log (tokenArray garbage all) dns fuel w hi
          (by rw [hkeyAt, hkey])
        exact of_decide_eq_true (h _ hmem)
      rw [shortTokens] at hshort
      rw [confWalk] at h ⊢
      rw [confWalk]
      simp only [if_pos hi, hkeyAt] at h ⊢
      cases hkey : confKey js key with
      | none => exact ⟨rfl, hlog0, [], rfl, rfl⟩
      | some kind =>
        have hi1 := hvalue kind hkey
        simp only [hkey] at h hshort ⊢
        obtain ⟨value, toks, rfl⟩ := exists_cons_of_drop hi1 hdrop1
        have hvalueAt : ∀ garbage, tokenArray garbage all (i + 1) = value := fun _ =>
          tokenArray_of_drop hdrop1
        have hdrop2 := drop_succ_of_drop hdrop1
        have hsame : tokenArray garbage' all (i + 1) = tokenArray garbage all (i + 1) := by
          rw [hvalueAt, hvalueAt]
        cases kind with
        | text key =>
          have hpair := text_agrees dns key { w' with log := .token i :: w'.log } hi1 hsame
            (h.of_subset (subset_confWalk_log _ _ _ _ _)) hlog0 hliteral
          exact hpair.walk (ih hdrop2 hshort h hpair.log (hpair.literal hliteral))
        | number key =>
          obtain ⟨hvalueShort, hshort⟩ := Bool.and_eq_true_iff.mp hshort
          have hvalueShort := of_decide_eq_true hvalueShort
          rw [← hvalueAt garbage] at hvalueShort
          have hpair := number_agrees dns hjs key { w' with log := .token i :: w'.log } hi1 hsame
            hvalueShort (h.of_subset (subset_confWalk_log _ _ _ _ _)) hlog0
          exact hpair.walk (ih hdrop2 hshort h hpair.log (hpair.literal hliteral))
        | list key =>
          dsimp only at h hshort ⊢
          by_cases harray : value.type = .array
          · simp only [harray, ne_eq, not_true_eq_false, if_false] at hshort
            obtain ⟨helementsShort, hshort⟩ := Bool.and_eq_true_iff.mp hshort
            obtain ⟨-, -, hnext⟩ := @TokensSettled.elements js garbage all i value toks hall hdrop1
            have hindices := @settled_elements js garbage garbage' all toks i value key hall hdrop1
              helementsShort
            have hat := hvalueAt garbage
            have hlogList : LogDefined all.length (confList js (tokenArray garbage all) dns key i
                { w with log := .token i :: w.log }).2.log := by
              split at h
              · exact h.of_subset (subset_confWalk_log _ _ _ _ _)
              · exact h
            obtain ⟨hok, hok', hpair⟩ := list_agrees dns hjs key
              { w' with log := .token i :: w'.log } hi1 hsame (hat ▸ harray)
              (hat ▸ hindices) hlogList hlog0
            simp only [hvalueAt, hok, hok', if_true] at h ⊢
            exact hpair.walk (ih hnext hshort h hpair.log (hpair.literal hliteral))
          · have hnot : ∀ garbage (v : ConfWalk),
                confList js (tokenArray garbage all) dns key i v =
                  (false, { v with log := .token (i + 1) :: v.log }) := by
              intro garbage v
              simp [confList, hvalueAt, harray]
            simp only [hnot, Bool.false_eq_true, if_false]
            exact ⟨rfl, hlog0.cons (decide_eq_true hi1), [], rfl, rfl⟩
    · rw [confWalk, confWalk, if_neg hi, if_neg hi]
      exact ⟨rfl, h', [], rfl, rfl⟩

end Walk

/-! ## The two calls -/

/-- Two calls in a row: the second starts with the configuration the first leaves.
SOURCE: gateway.c:391-394 -/
def configFromServerTwice (m m' : ConfMoment) (c : ServerConfig) : Option ConfOutcome :=
  (configFromServer m c).bind fun outcome =>
    match outcome with
    | .returned _ c' => configFromServer m' c'
    | .undefined => some .undefined

/-- What the server answers depends on its name, and on nothing else the document sets. -/
theorem serverDocument_congr (m : ConfMoment) (tmp : Text) (garbage : ℕ → JsmnToken)
    {c c' : ServerConfig} (h : c'.authServer = c.authServer) :
    serverDocument { m with tmp := tmp, garbage := garbage } c' = serverDocument m c := by
  simp only [serverDocument, configExchange, h, Option.bind_map]
  refine Option.bind_congr fun resolved _ => ?_
  cases resolved with
  | none => rfl
  | some ip =>
    simp only [Function.comp_apply, Option.map_some, Option.bind_some, httpGetRequest]
    split <;> rfl

/-- A call that gets no document leaves the configuration, and a second one does the same. -/
theorem twice_of_no_document {m m' : ConfMoment} {c : ServerConfig}
    (hnet : m'.net = m.net) (hfuel : m'.fuel = m.fuel) (hdoc : serverDocument m c = none) :
    configFromServerTwice m m' c = configFromServer m c := by
  have hexchange : configExchange m' c = configExchange m c := by
    simp only [configExchange, hnet, hfuel]
  unfold configFromServerTwice configFromServer
  cases hanswer : configExchange m c with
  | none => rfl
  | some answer =>
    rw [hanswer] at hexchange
    simp only [serverDocument, hanswer, Option.bind_some] at hdoc
    cases answer with
    | none => simp [hexchange]
    | some exchange =>
      rw [Option.bind_some] at hdoc
      cases hreceived : exchange.received with
      | none => simp [hexchange, hreceived]
      | some buf =>
        rw [hreceived, Option.bind_some] at hdoc
        simp [hexchange, hreceived, hdoc]

/-- Such a call is never undefined. -/
theorem not_undefined_of_no_document {m : ConfMoment} {c : ServerConfig}
    (hdoc : serverDocument m c = none) : configFromServer m c ≠ some .undefined := by
  unfold configFromServer
  cases hanswer : configExchange m c with
  | none => exact Option.some_ne_none _ |>.symm
  | some answer =>
    simp only [serverDocument, hanswer, Option.bind_some] at hdoc
    cases answer with
    | none => simp
    | some exchange =>
      rw [Option.bind_some] at hdoc
      cases hreceived : exchange.received with
      | none => simp [hreceived]
      | some buf =>
        rw [hreceived, Option.bind_some] at hdoc
        simp [hreceived, hdoc]

/-- INTERNAL: What the walk over a document does is done alike by a second walk over it, with
other buffers and behind the first one. -/
theorem confFromJson_twice {m : ConfMoment} {json : Text} {c : ServerConfig}
    (tmp : Text) (garbage : ℕ → JsmnToken) (hnul : '\x00' ∉ json) (hshort : ShortTokens json)
    (h : LogDefined (confFromJson m json c).1 (confFromJson m json c).2.2.log) :
    let m' : ConfMoment := { m with tmp := tmp, garbage := garbage }
    let r := confFromJson m json c
    let r' := confFromJson m' json r.2.2.applied.config
    r.2.2.applied.config.authServer = c.authServer ∧ r'.2.1 = r.2.1 ∧
      LogDefined r'.1 r'.2.2.log ∧ r'.2.2.applied.config = r.2.2.applied.config := by
  unfold confFromJson ShortTokens at *
  dsimp only at *
  cases hparse : jsmnParse 256 json with
  | error _ => exact ⟨rfl, rfl, fun _ h => (List.not_mem_nil h).elim, rfl⟩
  | ok tokens =>
    cases tokens with
    | nil => exact ⟨rfl, rfl, fun _ h => (List.not_mem_nil h).elim, rfl⟩
    | cons tok toks =>
      simp only [hparse] at h hshort ⊢
      by_cases hobject : tok.type = .object
      · simp only [hobject, ne_eq, not_true_eq_false, if_false] at h hshort ⊢
        obtain ⟨read, -, -, hread, -⟩ :=
          confWalk_reads json (tokenArray m.garbage (tok :: toks)) m.dns (toks.length + 1)
            (toks.length + 1) 1 { applied := { config := c }, tmp := m.tmp, log := [.token 0] }
            (by omega)
        obtain ⟨hserver, hliteral⟩ := applyPairs_frame m.dns read { config := c }
        set c' := (applyPairs m.dns read { config := c }).config with hc'
        have hfirst : LogDefined (tok :: toks).length [.token 0] :=
          List.forall_mem_singleton.mpr rfl
        obtain ⟨hret, hlog, pairs, hpairs, hpairs'⟩ :=
          @walk_agrees json m.dns m.garbage garbage (tok :: toks) toks hnul
            (tokensSettled_of_jsmnParse hparse) (toks.length + 1) 1
            { applied := { config := c }, tmp := m.tmp, log := [.token 0] }
            { applied := { config := c' }, tmp := tmp, log := [.token 0] }
            rfl (hshort trivial) h hfirst hliteral
        have hread' := congrArg Applied.config hread
        dsimp only at hread'
        rw [← hc'] at hread'
        rw [hread']
        refine ⟨hserver, hret, hlog, ?_⟩
        -- the pairs of the second walk are those of the first
        have hconfig : c' = (applyPairs m.dns pairs { config := c }).config :=
          hread'.symm.trans (congrArg Applied.config hpairs)
        refine (congrArg Applied.config hpairs').trans ?_
        dsimp only
        rw [hconfig]
        exact applyPairs_twice m.dns pairs c
      · simp only [hobject, ne_eq, not_false_eq_true, if_true] at h ⊢
        exact ⟨trivial, trivial, h, trivial⟩

/-- INTERNAL: a document is applied without doing anything that is undefined exactly when it is
one.
SOURCE: conf.c:819-1003 -/
theorem confFromJson_defined (m : ConfMoment) (json : Text) (c : ServerConfig) :
    (confFromJson m json c).2.2.log.all (ConfAccess.defined (confFromJson m json c).1) = true ↔
      DefinedDocument json c := by
  unfold confFromJson DefinedDocument
  dsimp only
  cases hparse : jsmnParse 256 json with
  | error _ => exact iff_of_true rfl trivial
  | ok tokens =>
    cases tokens with
    | nil => exact iff_of_true rfl trivial
    | cons tok toks =>
      dsimp only
      by_cases hobject : tok.type = .object
      · rw [if_neg (not_not.mpr hobject)]
        dsimp only
        rw [← List.length_cons (a := tok),
          walk_defined m.dns (tokensSettled_of_jsmnParse hparse) List.drop_one]
        simp [ConfAccess.defined, hobject]
      · rw [if_pos hobject]
        simp [ConfAccess.defined, hobject]

/-- A second call, behind the first one, changes nothing: the two calls end as the first one alone,
with a value and a configuration if at all. -/
def Reapplies (m m' : ConfMoment) (c : ServerConfig) : Prop :=
  configFromServerTwice m m' c = configFromServer m c ∧ configFromServer m c ≠ some .undefined

/-- **Calling the function a second time changes nothing**, with the same answers from outside and
whatever is in its memory, if and only if no call does anything that is undefined; the numbers, IP
addresses and MAC addresses of the document have at most 31 bytes.
SOURCE: conf.c:794-1004, gateway.c:391-394 -/
theorem document_applied_twice_iff (m : ConfMoment) (tmp : Text) (garbage : ℕ → JsmnToken)
    (c : ServerConfig) (h : ∀ json, serverDocument m c = some json → ShortTokens json) :
    Reapplies m { m with tmp := tmp, garbage := garbage } c ↔
      ∀ json, serverDocument m c = some json → DefinedDocument json c := by
  cases hdoc : serverDocument m c with
  | none =>
    refine iff_of_true ⟨twice_of_no_document rfl rfl hdoc, ?_⟩ fun json hjson => by cases hjson
    exact not_undefined_of_no_document hdoc
  | some json =>
    have hdefined : (∀ json', some json = some json' → DefinedDocument json' c) ↔
        DefinedDocument json c := by
      simp only [Option.some.injEq, forall_eq']
    rw [hdefined, ← confFromJson_defined m json c]
    unfold Reapplies
    rw [configFromServerTwice, configFromServer_of_document hdoc, Option.bind_some]
    constructor
    · rintro ⟨-, hreturned⟩
      by_contra hundefined
      rw [if_neg hundefined] at hreturned
      exact hreturned rfl
    · intro hall
      rw [if_pos hall]
      obtain ⟨hserver, hret, hlog, hconfig⟩ :=
        confFromJson_twice tmp garbage (not_mem_serverDocument hdoc) (h json hdoc)
          (List.all_eq_true.mp hall)
      refine ⟨?_, by simp⟩
      dsimp only
      rw [configFromServer_of_document ((serverDocument_congr m tmp garbage hserver).trans hdoc),
        if_pos (List.all_eq_true.mpr hlog), hret, hconfig]

/-- A path that `config_init` has set is freed: the document has no second application, nor a
first one. -/
theorem not_applied_twice :
    ¬∀ (m : ConfMoment) (tmp : Text) (garbage : ℕ → JsmnToken) (c : ServerConfig),
      (∀ json, serverDocument m c = some json → ShortTokens json) →
        Reapplies m { m with tmp := tmp, garbage := garbage } c := by
  intro hall
  have hdoc : serverDocument (answeredMoment newAuthPath) {} = some newAuthPath := by
    decide +kernel
  obtain ⟨-, hreturned⟩ := hall (answeredMoment newAuthPath) [] (answeredMoment newAuthPath).garbage
    {} fun json hjson => by
      obtain rfl : newAuthPath = json := Option.some.inj (hdoc.symm.trans hjson)
      decide +kernel
  rw [configFromServer_of_document hdoc, if_neg] at hreturned
  · exact hreturned rfl
  · rw [confFromJson_defined]
    decide +kernel

/-- `{"maxClients":5,"trustedMACList":["00:11:22:33:44:55"],"x":1}` -/
def listAndUnknown : Text :=
  "\x7b\"maxClients\":5,\"trustedMACList\":[\"00:11:22:33:44:55\"],\"x\":1\x7d".toList

/-- A document that is rejected behind its list. -/
theorem document_applied_twice_sample :
    Reapplies (answeredMoment listAndUnknown)
      { answeredMoment listAndUnknown with tmp := List.replicate 128 'x' } {} := by
  have hdoc : serverDocument (answeredMoment listAndUnknown) {} = some listAndUnknown := by
    decide +kernel
  refine (document_applied_twice_iff (answeredMoment listAndUnknown) (List.replicate 128 'x')
    (answeredMoment listAndUnknown).garbage {} fun json hjson => ?_).mpr fun json hjson => ?_
  · obtain rfl : listAndUnknown = json := Option.some.inj (hdoc.symm.trans hjson)
    decide +kernel
  · obtain rfl : listAndUnknown = json := Option.some.inj (hdoc.symm.trans hjson)
    decide +kernel

end WifiCat.Analysis
