import WifiCat.Analysis.PortalLink
import WifiCat.Library.Template
import WifiCat.Model.HttpdOutput

/-!
# What pages with variables become

`httpdOutput` copies names and values into two arrays without looking at their sizes, and does not
count what it copies for a variable.  `output_inside_iff` says for which lines of a page it stays
inside, and that it then writes the line with the values in the places of the names.  The variables
of a page are added behind those of the request, and the first one of a name is used:
`splash_page_iff` says for which requests the page is the gateway's.
-/

set_option autoImplicit false

namespace WifiCat.Analysis

open Scan Template

/-! ## The arrays -/

section Output

variable {vars : List HttpVar}

/-- The names of a line, and the line with their values. -/
abbrev usedNames (line : Text) : List Text := Template.names '$' isVarChar line
abbrev filledIn (vars : List HttpVar) (line : Text) : Text :=
  Template.expand '$' isVarChar (lookup vars) line

/-- INTERNAL: a name of up to 79 characters is copied with its end; a longer one is not.
SOURCE: api.c:886-894 -/
theorem varName_outside {b : Buffer Char} (h : b.bytes.length = 80) {name : Text}
    (hname : name.length ≤ 80) :
    ((b.write 0 name).write name.length ['\x00']).outside =
      (b.outside || decide (name.length = 80)) := by
  have hfirst : ¬b.bytes.length < 0 + name.length := by omega
  have hlast : b.bytes.length < name.length + ['\x00'].length ↔ name.length = 80 := by
    rw [List.length_singleton]
    omega
  rw [Buffer.outside_write, Buffer.outside_write, Buffer.length_write, decide_eq_false hfirst,
    Bool.or_false, decide_eq_decide.mpr hlast]

/-- What is written between two states is a text, as long as it fits. -/
structure Writes (st st' : HttpdOutputState) (text : Text) : Prop where
  dest : st'.dest = st.dest + text.length
  count : st.count ≤ st.dest → st'.count ≤ st'.dest
  bufLength : st'.buf.bytes.length = st.buf.bytes.length
  nameLength : st'.varName.bytes.length = st.varName.bytes.length
  nameOutside : st'.varName.outside = st.varName.outside
  fits : st'.dest < st.buf.bytes.length → st'.buf.outside = st.buf.outside ∧
    st'.buf.bytes.take st'.dest = st.buf.bytes.take st.dest ++ text

theorem Writes.refl (st : HttpdOutputState) : Writes st st [] :=
  ⟨rfl, id, rfl, rfl, rfl, fun _ => ⟨rfl, (List.append_nil _).symm⟩⟩

theorem Writes.trans {st₁ st₂ st₃ : HttpdOutputState} {text text' : Text}
    (h : Writes st₁ st₂ text) (h' : Writes st₂ st₃ text') : Writes st₁ st₃ (text ++ text') := by
  refine ⟨?_, fun hc => h'.count (h.count hc), h'.bufLength.trans h.bufLength,
    h'.nameLength.trans h.nameLength, h'.nameOutside.trans h.nameOutside, fun hfits => ?_⟩
  · rw [h'.dest, h.dest, List.length_append, Nat.add_assoc]
  · have hdest := h'.dest
    obtain ⟨houtside', htake'⟩ := h'.fits (by rw [h.bufLength]; exact hfits)
    obtain ⟨houtside, htake⟩ := h.fits (by omega)
    exact ⟨houtside'.trans houtside, by rw [htake', htake, List.append_assoc]⟩

/-- The start of an array behind what was stored. -/
theorem take_write {b : Buffer Char} {off : ℕ} {text rest : Text}
    (h : off + (text ++ rest).length ≤ b.bytes.length) :
    (b.write off (text ++ rest)).bytes.take (off + text.length) = b.bytes.take off ++ text := by
  have hoff : (b.bytes.take off ++ text).length = off + text.length := by
    rw [List.length_append] at h
    rw [List.length_append, List.length_take]
    omega
  rw [Buffer.write_eq h, ← List.append_assoc, List.append_assoc (b.bytes.take off ++ text), ← hoff]
  exact List.take_left

/-- INTERNAL: a text that is stored where the next place is, with something behind it. -/
theorem writes_store {st st' : HttpdOutputState} {text rest : Text}
    (hbuf : st'.buf = st.buf.write st.dest (text ++ rest)) (hrest : rest.length ≤ 1)
    (hdest : st'.dest = st.dest + text.length)
    (hcount : st.count ≤ st.dest → st'.count ≤ st'.dest)
    (hlength : st'.varName.bytes.length = st.varName.bytes.length)
    (houtside : st'.varName.outside = st.varName.outside) : Writes st st' text := by
  refine ⟨hdest, hcount, by rw [hbuf, Buffer.length_write], hlength, houtside, fun hfits => ?_⟩
  have hroom : st.dest + (text ++ rest).length ≤ st.buf.bytes.length := by
    rw [List.length_append]
    omega
  rw [hbuf, hdest, Buffer.outside_write, decide_eq_false (not_lt.mpr hroom), Bool.or_false]
  exact ⟨rfl, take_write hroom⟩

/-- INTERNAL: a name that fits is written as its value, or as itself.
SOURCE: api.c:883-914 -/
theorem outputName_writes {name : Text} {st : HttpdOutputState}
    (hlength : st.varName.bytes.length = 80) (hname : name.length < 80) :
    Writes st (httpdOutputName vars name st) (inserted '$' (lookup vars) name) := by
  have hlookup : lookup vars name = (httpdGetVariableByName vars name).map HttpVar.value := rfl
  have houtside := varName_outside hlength (Nat.le_of_lt hname)
  rw [decide_eq_false (Nat.ne_of_lt hname), Bool.or_false] at houtside
  have hsame : ((st.varName.write 0 name).write name.length ['\x00']).bytes.length =
      st.varName.bytes.length := by rw [Buffer.length_write, Buffer.length_write]
  unfold httpdOutputName inserted
  cases hfound : httpdGetVariableByName vars name with
  | some curVar =>
    rw [hlookup, hfound, Option.map_some, Option.getD_some]
    exact writes_store rfl (Nat.le_refl 1) rfl (fun hc => hc.trans (Nat.le_add_right _ _)) hsame
      houtside
  | none =>
    rw [hlookup, hfound, Option.map_none, Option.getD_none]
    have hmark : Writes st { st with
        buf := st.buf.write st.dest ['$'], dest := st.dest + 1, count := st.count + 1 } ['$'] :=
      @writes_store st _ ['$'] [] rfl (Nat.zero_le 1) rfl Nat.succ_le_succ rfl rfl
    refine @Writes.trans _ _ _ ['$'] name hmark
      (writes_store rfl (Nat.le_refl 1) rfl ?_ hsame houtside)
    intro hc
    dsimp only at hc ⊢
    omega

/-- INTERNAL: a name that was too long is not forgotten.
SOURCE: api.c:886-894 -/
theorem outputLoop_outside {src : Text} {skip : ℕ} {st : HttpdOutputState}
    (h : st.varName.outside = true) : (httpdOutputLoop vars src skip st).varName.outside = true := by
  fun_induction httpdOutputLoop vars src skip st with
  | case1 => exact h
  | case2 _ _ _ _ ih => exact ih h
  | case3 => exact h
  | case4 src st _ name ih =>
    apply ih
    unfold httpdOutputName
    cases httpdGetVariableByName vars name with
    | some curVar => simp [Buffer.outside_write, h]
    | none => simp [Buffer.outside_write, h]
  | case5 _ _ _ _ _ ih => exact ih h

/-- A text is written, or it does not fit, and the next place is behind the end of the array. -/
def WritesOrStops (st st' : HttpdOutputState) (text : Text) : Prop :=
  Writes st st' text ∨ HTTP_MAX_LEN ≤ st'.dest ∧ HTTP_MAX_LEN ≤ st.dest + text.length

theorem Writes.andThen {st₁ st₂ st₃ : HttpdOutputState} {text text' : Text}
    (h : Writes st₁ st₂ text) (h' : WritesOrStops st₂ st₃ text') :
    WritesOrStops st₁ st₃ (text ++ text') := by
  rcases h' with h' | ⟨hstop, hlong⟩
  · exact Or.inl (h.trans h')
  · have hdest := h.dest
    refine Or.inr ⟨hstop, ?_⟩
    rw [List.length_append]
    omega

/-- INTERNAL: the loop writes the text with its values, or stops behind the end of the array.
SOURCE: api.c:876-918 -/
theorem outputLoop_writes {src : Text} {skip : ℕ} {st : HttpdOutputState}
    (hlength : st.varName.bytes.length = 80) (hcount : st.count ≤ st.dest)
    (hnames : ∀ name ∈ namesFrom '$' isVarChar src skip, name.length < 80) :
    WritesOrStops st (httpdOutputLoop vars src skip st)
      (expandFrom '$' isVarChar (lookup vars) src skip) := by
  fun_induction httpdOutputLoop vars src skip st with
  | case1 => exact Or.inl (Writes.refl _)
  | case2 _ _ _ _ ih => exact ih hlength hcount hnames
  | case3 => exact Or.inr ⟨by omega, by omega⟩
  | case4 src st _ name ih =>
    rw [namesFrom, if_pos rfl, List.forall_mem_cons] at hnames
    have hname : name = src.takeWhile isVarChar := List.take_of_length_le (Nat.le_of_lt hnames.1)
    rw [hname] at ih ⊢
    have hstep := @outputName_writes vars _ st hlength hnames.1
    rw [expandFrom, if_pos rfl]
    exact hstep.andThen
      (ih (hstep.nameLength.trans hlength) (hstep.count hcount) hnames.2)
  | case5 c src st _ hc ih =>
    rw [namesFrom, if_neg hc] at hnames
    rw [expandFrom, if_neg hc, ← List.singleton_append]
    have hstep : Writes st { st with
        buf := st.buf.write st.dest [c], dest := st.dest + 1, count := st.count + 1 } [c] :=
      @writes_store st _ [c] [] rfl (Nat.zero_le 1) rfl Nat.succ_le_succ rfl rfl
    exact hstep.andThen (ih hlength (hstep.count hcount) hnames)

/-- INTERNAL: a name that is too long is stored outside its array, unless the loop stops before it.
SOURCE: api.c:876-918 -/
theorem outputLoop_longName {src : Text} {skip : ℕ} {st : HttpdOutputState}
    (hlength : st.varName.bytes.length = 80) (hcount : st.count ≤ st.dest)
    (hnames : ¬∀ name ∈ namesFrom '$' isVarChar src skip, name.length < 80) :
    (httpdOutputLoop vars src skip st).varName.outside = true ∨
      HTTP_MAX_LEN ≤ (httpdOutputLoop vars src skip st).dest := by
  fun_induction httpdOutputLoop vars src skip st with
  | case1 => exact absurd (fun _ h => by cases h) hnames
  | case2 _ _ _ _ ih => exact ih hlength hcount hnames
  | case3 => exact Or.inr (by omega)
  | case4 src st _ name ih =>
    rw [namesFrom, if_pos rfl, List.forall_mem_cons] at hnames
    by_cases hshort : (src.takeWhile isVarChar).length < 80
    · have hname : name = src.takeWhile isVarChar := List.take_of_length_le (Nat.le_of_lt hshort)
      rw [hname] at ih ⊢
      have hstep := @outputName_writes vars _ st hlength hshort
      exact ih (hstep.nameLength.trans hlength) (hstep.count hcount)
        fun h => hnames ⟨hshort, h⟩
    · have heighty : name.length = 80 := List.length_take_of_le (Nat.le_of_not_lt hshort)
      have houtside := varName_outside hlength (Nat.le_of_eq heighty)
      rw [decide_eq_true heighty, Bool.or_true] at houtside
      refine Or.inl (outputLoop_outside ?_)
      unfold httpdOutputName
      cases httpdGetVariableByName vars name with
      | some curVar => exact houtside
      | none => exact houtside
  | case5 c src st _ hc ih =>
    rw [namesFrom, if_neg hc] at hnames
    exact ih hlength (Nat.succ_le_succ hcount) hnames

theorem outputLoop_length (src : Text) (skip : ℕ) (st : HttpdOutputState) :
    (httpdOutputLoop vars src skip st).buf.bytes.length = st.buf.bytes.length := by
  fun_induction httpdOutputLoop vars src skip st with
  | case1 => rfl
  | case2 _ _ _ _ ih => exact ih
  | case3 => rfl
  | case4 src st _ name ih =>
    rw [ih]
    unfold httpdOutputName
    cases httpdGetVariableByName vars name with
    | some curVar => exact Buffer.length_write ..
    | none => exact (Buffer.length_write ..).trans (Buffer.length_write ..)
  | case5 _ _ _ _ _ ih => exact ih.trans (Buffer.length_write ..)

/-- The values of variables are strings. -/
def CleanValues (vars : List HttpVar) : Prop := ∀ var ∈ vars, '\x00' ∉ var.value

theorem CleanValues.lookup (h : CleanValues vars) {name v : Text} (hv : lookup vars name = some v) :
    '\x00' ∉ v := by
  obtain ⟨var, hvar, rfl⟩ := Option.map_eq_some_iff.mp hv
  exact h var (List.mem_of_find?_eq_some hvar)

theorem filledIn_clean (h : CleanValues vars) {line : Text} (hline : '\x00' ∉ line) :
    '\x00' ∉ filledIn vars line := fun hmem => by
  refine forall_mem_expand (P := (· ≠ '\x00')) (fun name v hv c hc => ?_) (fun c hc => ?_) _ hmem rfl
  · rintro rfl
    exact h.lookup hv hc
  · rintro rfl
    exact hline hc

/-- **A line of a page stays inside the arrays exactly when** each of its names has less than 80
characters and the line with its values has less than 10240; it is then written as that.  The
values count, although the code does not count them.
SOURCE: api.c:866-923 -/
theorem output_inside_iff {buf varName line : Text} (hbuf : buf.length = HTTP_MAX_LEN)
    (hname : varName.length = 80) (hline : '\x00' ∉ line) (hvalues : CleanValues vars) :
    ((httpdOutput vars buf varName line).outside = false ↔
        (∀ name ∈ usedNames line, name.length < 80) ∧
          (filledIn vars line).length < HTTP_MAX_LEN) ∧
      ((httpdOutput vars buf varName line).outside = false →
        (httpdOutput vars buf varName line).written = filledIn vars line) := by
  set st : HttpdOutputState := { buf := ⟨buf, false⟩, varName := ⟨varName, false⟩ } with hst
  set after := httpdOutputLoop vars line 0 st with hafter
  have houtside : (httpdOutput vars buf varName line).outside =
      (after.buf.outside || decide (after.buf.bytes.length < after.dest + 1) ||
        after.varName.outside) := by
    rw [← List.length_singleton (a := '\x00'), ← Buffer.outside_write]
    rfl
  have hwritten : (httpdOutput vars buf varName line).written =
    cString (after.buf.write after.dest ['\x00']).bytes := rfl
  have hlength : after.buf.bytes.length = HTTP_MAX_LEN := (outputLoop_length line 0 st).trans hbuf
  have hstop : HTTP_MAX_LEN ≤ after.dest → (httpdOutput vars buf varName line).outside = true := by
    intro hdest
    rw [houtside, hlength, decide_eq_true (Nat.lt_succ_of_le hdest), Bool.or_true, Bool.true_or]
  -- what goes outside does not fit, and there is no more to say about it
  have hbroken : ∀ {P Q : Prop}, (httpdOutput vars buf varName line).outside = true → ¬P →
      ((httpdOutput vars buf varName line).outside = false ↔ P) ∧
        ((httpdOutput vars buf varName line).outside = false → Q) := by
    intro P Q htrue hP
    rw [htrue]
    exact ⟨iff_of_false Bool.true_eq_false.mp hP, fun h => by cases h⟩
  by_cases hnames : ∀ name ∈ usedNames line, name.length < 80
  · rcases @outputLoop_writes vars _ _ st hname (Nat.le_refl 0) hnames with
      hwrites | ⟨hdest, hlong⟩
    · have hdest : after.dest = (filledIn vars line).length := hwrites.dest.trans (Nat.zero_add _)
      by_cases hfits : after.dest < HTTP_MAX_LEN
      · obtain ⟨hinside, htake⟩ := hwrites.fits (by rw [hbuf]; exact hfits)
        have hroom : ¬after.buf.bytes.length < after.dest + 1 := by omega
        have hbytes : (after.buf.write after.dest ['\x00']).bytes =
            filledIn vars line ++ '\x00' :: after.buf.bytes.drop (after.dest + 1) := by
          rw [Buffer.write_eq (by rw [hlength]; exact hfits), htake, List.append_assoc,
            List.singleton_append]
          rfl
        refine ⟨iff_of_true ?_ ⟨hnames, by omega⟩, fun _ => ?_⟩
        · rw [houtside, hinside, hwrites.nameOutside, decide_eq_false hroom]
          rfl
        · rw [hwritten, hbytes, cString_append_nul,
            cString_of_not_mem (filledIn_clean hvalues hline)]
      · refine hbroken (hstop (Nat.le_of_not_lt hfits)) fun h => hfits ?_
        omega
    · refine hbroken (hstop hdest) fun h => absurd h.2 ?_
      rw [Nat.zero_add] at hlong
      exact Nat.not_lt.mpr hlong
  · refine hbroken ?_ fun h => hnames h.1
    rcases @outputLoop_longName vars _ _ st hname (Nat.le_refl 0) hnames with
      hlong | hdest
    · rw [houtside, hlong, Bool.or_true]
    · exact hstop hdest

/-- A value that is longer than the array. -/
theorem output_inside_iff_sample :
    (httpdOutput [{ name := "redir".toList, value := List.replicate 20000 'a' }]
      (List.replicate HTTP_MAX_LEN ' ') (List.replicate 80 ' ') ('$' :: "redir".toList)).outside =
      true := by
  rw [← Bool.not_eq_false]
  intro hinside
  have hclean : CleanValues [{ name := "redir".toList, value := List.replicate 20000 'a' }] := by
    intro var hvar h
    rw [List.mem_singleton.mp hvar] at h
    exact absurd (List.eq_of_mem_replicate h) (by decide)
  have hfits := ((output_inside_iff (List.length_replicate ..) (List.length_replicate ..) (by decide)
    hclean).1.mp hinside).2
  have hvalue : lookup [{ name := "redir".toList, value := List.replicate 20000 'a' }]
      "redir".toList = some (List.replicate 20000 'a') :=
    congrArg (Option.map HttpVar.value) (List.find?_cons_of_pos (decide_eq_true (Eq.refl _)))
  rw [filledIn, expand_name (by decide), inserted, hvalue, Option.getD_some,
    List.length_replicate] at hfits
  exact absurd hfits (by decide)

end Output

/-! ## The variables of a request -/

/-- INTERNAL: what all values have, and a new one, all values have when it is added.
SOURCE: api.c:159-193 -/
theorem forall_addVariable {P : Text → Prop} {vars : List HttpVar} (name : Text) {value : Text}
    (hvars : ∀ var ∈ vars, P var.value) (hvalue : P value) :
    ∀ var ∈ httpdAddVariable vars name value, P var.value := by
  unfold httpdAddVariable
  induction vars with
  | nil => exact List.forall_mem_singleton.mpr hvalue
  | cons var vars ih =>
    rw [List.forall_mem_cons] at hvars
    rw [httpdAppendVariable]
    split
    · exact List.forall_mem_cons.mpr ⟨hvars.1, ih hvars.2⟩
    · exact List.forall_mem_cons.mpr hvars

theorem forall_addVariables {P : Text → Prop} {ps : List (Text × Text)} {vars : List HttpVar}
    (hvars : ∀ var ∈ vars, P var.value) (hvalues : ∀ p ∈ ps, P p.2) :
    ∀ var ∈ addVariables vars ps, P var.value := by
  unfold addVariables
  induction ps generalizing vars with
  | nil => exact hvars
  | cons p ps ih =>
    rw [List.forall_mem_cons] at hvalues
    exact ih (forall_addVariable p.1 hvars hvalues.1) hvalues.2

theorem forall_storeFields {P : Text → Prop} {fs : List Text} {st : Text × List HttpVar}
    (hvars : ∀ var ∈ st.2, P var.value) (hvalues : ∀ f ∈ fs, P (fieldValue f)) :
    ∀ var ∈ storeFields fs st, P var.value := by
  fun_induction storeFields fs st with
  | case1 => exact hvars
  | case2 field st _ => exact forall_addVariable _ hvars (hvalues field List.mem_cons_self)
  | case3 => exact hvars
  | case4 st field fs _ ih =>
    rw [List.forall_mem_cons] at hvalues
    exact ih (forall_addVariable _ hvars hvalues.1) hvalues.2

/-- INTERNAL: a value is not longer than it was written.
SOURCE: protocol.c:289-316 -/
theorem length_unescapeLoop_le (str out s : Text) :
    (httpdUnescapeLoop str out s).length ≤ out.length + s.length := by
  fun_induction httpdUnescapeLoop str out s with
  | case1 => simp
  | case2 => simp
  | case3 => simp
  | case4 out a b rest ih =>
    simp only [List.length_append, List.length_cons, List.length_nil] at ih ⊢
    omega
  | case5 out rest ih =>
    simp only [List.length_append, List.length_cons, List.length_nil] at ih ⊢
    omega
  | case6 out c rest _ _ _ _ ih =>
    simp only [List.length_append, List.length_cons, List.length_nil] at ih ⊢
    omega

/-- INTERNAL: the values of a query are strings that are not longer than the query.
SOURCE: protocol.c:340-406 -/
theorem storeData_values {query : Text} :
    ∀ var ∈ httpdStoreData [] query, '\x00' ∉ var.value ∧ var.value.length ≤ query.length := by
  rw [storeData_eq_storeFields]
  refine forall_storeFields (P := fun v => '\x00' ∉ v ∧ v.length ≤ query.length)
    (fun var hvar => by cases hvar) fun field hfield => ?_
  have hquery : field.length ≤ query.length := length_le_of_mem_fields hfield
  have hraw : (rawValue field).length ≤ field.length :=
    length_le_of_mem_fields (List.getLast_mem (fields_ne_nil '=' field))
  unfold fieldValue
  split
  · have hvalue : (httpdValue (rawValue field)).length ≤ (rawValue field).length :=
      (List.takeWhile_sublist _).length_le.trans
        ((length_unescapeLoop_le _ [] _).trans (Nat.le_of_eq (Nat.zero_add _)))
    exact ⟨not_mem_cString _, by omega⟩
  · exact ⟨List.not_mem_nil, Nat.zero_le _⟩

/-! ### The path -/

theorem length_removeSlashes_le (url : Text) : (removeSlashes url).length ≤ url.length := by
  fun_induction removeSlashes url with
  | case1 s ih =>
    simp only [List.length_cons] at ih ⊢
    omega
  | case2 c s _ ih =>
    simp only [List.length_cons] at ih ⊢
    omega
  | case3 => exact Nat.le_refl 0

theorem length_removeDots_le (url : Text) : (removeDots url).length ≤ url.length := by
  fun_induction removeDots url with
  | case1 s ih =>
    simp only [List.length_cons] at ih ⊢
    omega
  | case2 c s _ ih =>
    simp only [List.length_cons] at ih ⊢
    omega
  | case3 => exact Nat.le_refl 0

theorem length_removeParents_le (out : Text) (last : ℕ) (url : Text) :
    (removeParents out last url).length ≤ out.length + url.length := by
  fun_induction removeParents out last url with
  | case1 out last s ih =>
    have hle := List.length_take_le' last out
    simp only [List.length_cons] at ih ⊢
    omega
  | case2 out last s _ ih =>
    simp only [List.length_append, List.length_cons, List.length_nil] at ih ⊢
    omega
  | case3 out last c s _ _ ih =>
    simp only [List.length_append, List.length_cons, List.length_nil] at ih ⊢
    omega
  | case4 => exact Nat.le_add_right _ _

theorem length_sanitiseUrl_le (url : Text) : (httpdSanitiseUrl url).length ≤ url.length := by
  have hparents := length_removeParents_le [] 0 (removeDots (removeSlashes url))
  rw [List.length_nil, Nat.zero_add] at hparents
  calc (httpdSanitiseUrl url).length
      ≤ (removeDots (removeSlashes url)).length := hparents
    _ ≤ (removeSlashes url).length := length_removeDots_le _
    _ ≤ url.length := length_removeSlashes_le url

/-- INTERNAL: the path of the first line is cut.
SOURCE: api.c:425-438 -/
theorem requestLine_path (st : HttpdReading) (h : st.request.path = []) :
    (httpdRequestLine st).2.request.path.length < HTTP_MAX_URL := by
  have hempty : ([] : Text).length < HTTP_MAX_URL := by decide
  dsimp only [httpdRequestLine]
  cases httpdMethod (cString (st.buf.write _ ['\x00']).bytes) with
  | none => exact h ▸ hempty
  | some method =>
    refine (length_sanitiseUrl_le _).trans_lt ((length_strncpyInto HTTP_MAX_URL _).trans_lt ?_)
    decide

/-- INTERNAL: the values of a request are strings, shorter than a path may be.
SOURCE: api.c:381-612 -/
theorem urlData_values {request : HttpReq} (h : request.path.length < HTTP_MAX_URL) :
    ∀ var ∈ (httpdUrlData request).2, '\x00' ∉ var.value ∧ var.value.length < HTTP_MAX_URL := by
  unfold httpdUrlData
  split
  · intro var hvar
    obtain ⟨hclean, hlength⟩ := storeData_values var hvar
    rw [List.length_drop] at hlength
    exact ⟨hclean, by omega⟩
  · exact fun var hvar => by cases hvar

theorem readRequest_values (stack : Text) (r : PieceReader.Reader Char) :
    ∀ var ∈ (httpdReadRequest stack r).vars,
      '\x00' ∉ var.value ∧ var.value.length < HTTP_MAX_URL := by
  unfold httpdReadRequest
  dsimp only
  cases httpdReadLine r { bytes := stack } HTTP_MAX_LEN with
  | none =>
    have hempty : ([] : Text).length < HTTP_MAX_URL := by decide
    exact urlData_values hempty
  | some p =>
    dsimp only
    split
    · exact fun var hvar => by cases hvar
    · refine urlData_values ?_
      rw [(readHeaders_kept _ _).2.1]
      exact requestLine_path _ rfl

/-! ## The splash page -/

/-- The names of the splash page. -/
def splashNames : List Text :=
  ["error_msg".toList, "gatewayname".toList, "tok".toList, "redir".toList, "authaction".toList,
    "denyaction".toList, "authtarget".toList, "clientip".toList, "clientmac".toList,
    "gatewaymac".toList, "nclients".toList, "maxclients".toList, "uptime".toList,
    "imagesdir".toList, "pagesdir".toList]

theorem splashNames_spec : splashNames.Nodup ∧ ∀ name ∈ splashNames,
    keptName name = name ∧ name.length < 80 ∧ '\n' ∉ name ∧ '\x00' ∉ name ∧
      ∀ c ∈ name, isVarChar c = true := by
  decide

/-- The first pair of a list with different names is the only one with its name. -/
theorem find?_of_nodup {ps : List (Text × Text)} (h : (ps.map Prod.fst).Nodup) {p : Text × Text}
    (hp : p ∈ ps) : ps.find? (fun q => q.1 = p.1) = some p := by
  induction ps with
  | nil => cases hp
  | cons q ps ih =>
    rw [List.map_cons, List.nodup_cons] at h
    rcases List.mem_cons.mp hp with rfl | hp
    · exact List.find?_cons_of_pos (decide_eq_true rfl)
    · have hne : q.1 ≠ p.1 := fun heq => h.1 (heq ▸ List.mem_map_of_mem hp)
      rw [List.find?_cons_of_neg (by simpa using hne)]
      exact ih h.2 hp

section Splash

variable (server : HttpdServer) (page : PageConfig) (authtarget : RemoteTarget) (client : Client)
  (w : World)

/-- The gateway's value of a name, or else the request's. -/
def gatewayValue (vars : List HttpVar) (name : Text) : Option Text :=
  (((splashVariables server page authtarget client w).find? fun p => p.1 = name).map Prod.snd).or
    (lookup vars name)

/-- The splash page as the gateway means it. -/
def gatewayPage (vars : List HttpVar) (text : Text) : List Text :=
  (TextLines.pieces MAX_BUF text).map
    (Template.expand '$' isVarChar (gatewayValue server page authtarget client w vars))

variable {server page authtarget client w}

theorem splashVariables_names :
    (splashVariables server page authtarget client w).map Prod.fst = splashNames := rfl

theorem splashVariables_mem {p : Text × Text}
    (hp : p ∈ splashVariables server page authtarget client w) : p.1 ∈ splashNames :=
  splashVariables_names ▸ List.mem_map_of_mem hp

/-- INTERNAL: the request's value of a name comes before the gateway's.
SOURCE: api.c:89-101, 171-192 -/
theorem lookup_splash (vars : List HttpVar) (name : Text) :
    lookup (addVariables vars (splashVariables server page authtarget client w)) name =
      (lookup vars name).or
        (((splashVariables server page authtarget client w).find? fun p => p.1 = name).map
          Prod.snd) := by
  have hkept : ∀ p ∈ splashVariables server page authtarget client w,
      (decide (keptName p.1 = name)) = decide (p.1 = name) := fun p hp => by
    rw [(splashNames_spec.2 p.1 (splashVariables_mem hp)).1]
  rw [lookup, addVariables, getVariable_foldl, List.find?_congr hkept]
  rfl

/-- The gateway's value of one of its own names. -/
theorem gatewayValue_of_mem (vars : List HttpVar) {p : Text × Text}
    (hp : p ∈ splashVariables server page authtarget client w) :
    gatewayValue server page authtarget client w vars p.1 = some p.2 := by
  have hnodup : ((splashVariables server page authtarget client w).map Prod.fst).Nodup :=
    splashVariables_names ▸ splashNames_spec.1
  rw [gatewayValue, find?_of_nodup hnodup hp]
  rfl

/-- INTERNAL: the two values of a name agree when the request has no other one. -/
theorem lookup_eq_gatewayValue {vars : List HttpVar}
    (h : ∀ p ∈ splashVariables server page authtarget client w, ∀ v,
      lookup vars p.1 = some v → v = p.2) (name : Text) :
    lookup (addVariables vars (splashVariables server page authtarget client w)) name =
      gatewayValue server page authtarget client w vars name := by
  rw [lookup_splash, gatewayValue]
  cases hvar : lookup vars name with
  | none => rw [Option.none_or, Option.or_none]
  | some v =>
    cases hfound : (splashVariables server page authtarget client w).find? fun p => p.1 = name with
    | none => rfl
    | some p =>
      have hname : p.1 = name := by simpa using List.find?_some hfound
      have hv : v = p.2 := h p (List.mem_of_find?_eq_some hfound) v (by rw [hname, hvar])
      rw [Option.some_or, Option.map_some, Option.some_or, hv]

/-- **The splash page is the gateway's exactly when** the request has no variable with one of its
names and another value: then every page that stays inside the arrays is served with the gateway's
values, and otherwise some page is served with the request's.
SOURCE: http.c:450-518, api.c:866-923 -/
theorem splash_page_iff {stack : Text} {r : PieceReader.Reader Char} {arrays : ℕ → Text × Text}
    (harrays : ∀ i, (arrays i).1.length = HTTP_MAX_LEN ∧ (arrays i).2.length = 80)
    (hvalues : ∀ p ∈ splashVariables server page authtarget client w, '\x00' ∉ p.2)
    (info : Option Text) :
    let vars := (httpdReadRequest stack r).vars
    (∀ text, '\x00' ∉ text →
        (∀ out ∈ serveSplashPage server page authtarget client w vars arrays (some text) info,
          out.outside = false) →
        (serveSplashPage server page authtarget client w vars arrays (some text) info).map
            HttpdOutputResult.written =
          gatewayPage server page authtarget client w vars text) ↔
      ∀ p ∈ splashVariables server page authtarget client w, ∀ v,
        lookup vars p.1 = some v → v = p.2 := by
  intro vars
  have hall : CleanValues (addVariables vars (splashVariables server page authtarget client w)) :=
    forall_addVariables (P := fun v => '\x00' ∉ v)
      (fun var hvar => (readRequest_values stack r var hvar).1) hvalues
  constructor
  · intro h p hp v hv
    obtain ⟨-, hlength, hnewline, hnul, hname⟩ := splashNames_spec.2 p.1 (splashVariables_mem hp)
    -- the page of which the name is all
    have hline : '\x00' ∉ '$' :: p.1 := by
      rw [List.mem_cons, not_or]
      exact ⟨by decide, hnul⟩
    have hpieces : TextLines.pieces MAX_BUF ('$' :: p.1) = ['$' :: p.1] := by
      have hone : TextLines.lines ('$' :: p.1) = ['$' :: p.1] := by
        refine TextLines.lines_of_not_mem (List.cons_ne_nil _ _) ?_
        rw [List.mem_cons, not_or]
        exact ⟨by decide, hnewline⟩
      rw [TextLines.pieces_eq_lines (by decide), hone]
      rw [hone, List.forall_mem_singleton, List.length_cons]
      have hbuf : MAX_BUF = 4096 := rfl
      omega
    have htext : filledIn (addVariables vars
        (splashVariables server page authtarget client w)) ('$' :: p.1) = v := by
      rw [filledIn, expand_name hname, inserted, lookup_splash, hv]
      rfl
    have hout := output_inside_iff (harrays 0).1 (harrays 0).2 hline hall
    have hinside : (httpdOutput (addVariables vars
        (splashVariables server page authtarget client w)) (arrays 0).1 (arrays 0).2
          ('$' :: p.1)).outside = false := by
      refine hout.1.mpr ⟨?_, ?_⟩
      · rw [usedNames, names_name hname, List.forall_mem_singleton]
        exact hlength
      · obtain ⟨var, hvar, hvalue⟩ := Option.map_eq_some_iff.mp hv
        have hshort := (readRequest_values stack r var (List.mem_of_find?_eq_some hvar)).2
        have hmax : HTTP_MAX_URL < HTTP_MAX_LEN := by decide
        rw [htext, ← hvalue]
        omega
    have hserved := h ('$' :: p.1) hline
    simp only [serveSplashPage, pipePage, gatewayPage, hpieces, List.mapIdx_cons, List.mapIdx_nil,
      List.forall_mem_singleton, List.map_cons, List.map_nil] at hserved
    have hsame := List.singleton_injective (hserved hinside)
    rw [hout.2 hinside, htext, expand_name hname, inserted, gatewayValue_of_mem vars hp] at hsame
    exact hsame
  · intro h text htext hinside
    have hvalue := funext (lookup_eq_gatewayValue h)
    have hclean : ∀ line ∈ TextLines.pieces MAX_BUF text, '\x00' ∉ line := fun line hline hmem =>
      htext (TextLines.flatten_piecesFrom _ _ text ▸ List.mem_flatten_of_mem hline hmem)
    refine List.ext_getElem (by simp [serveSplashPage, pipePage, gatewayPage]) fun i hi hi' => ?_
    have hlength : i < (TextLines.pieces MAX_BUF text).length := by
      simpa [gatewayPage] using hi'
    have hout := output_inside_iff (harrays i).1 (harrays i).2
      (hclean _ (List.getElem_mem hlength)) hall
    have hmem := List.getElem_mem (l := (TextLines.pieces MAX_BUF text).mapIdx fun i line =>
      httpdOutput (addVariables vars (splashVariables server page authtarget client w))
        (arrays i).1 (arrays i).2 line) (n := i) (by simpa using hlength)
    rw [List.getElem_mapIdx] at hmem
    simp only [serveSplashPage, pipePage, gatewayPage, List.getElem_map, List.getElem_mapIdx]
    rw [hout.2 (hinside _ hmem), filledIn, hvalue]

/-- What the page of a client shows that asks with the link of an earlier token. -/
theorem splash_page_iff_sample :
    let config : Config := { gwAddress := "192.168.9.1".toList }
    let authtarget :=
      httpMakeAuthtarget plainServer.remote config "ffffffff".toList "http://example.com/".toList
    let client : Client :=
      { addr := 1, ip := "10.0.0.2".toList, mac := "00:11:22:33:44:55".toList
        token := some "ffffffff".toList, idx := 10 }
    let page : PageConfig := { gwMac := "00:11:22:33:44:00".toList, uptime := "5 minutes".toList }
    let vars := (httpdReadRequest plainConnection.stack ⟨[], plainConnection.pieces⟩).vars
    let arrays : ℕ → Text × Text := fun _ =>
      (List.replicate HTTP_MAX_LEN ' ', List.replicate 80 ' ')
    ¬∀ text, '\x00' ∉ text →
      (∀ out ∈ serveSplashPage plainServer page authtarget client
          { config := config, fw := {}, clients := {} } vars arrays (some text) none,
        out.outside = false) →
      (serveSplashPage plainServer page authtarget client
          { config := config, fw := {}, clients := {} } vars arrays (some text) none).map
          HttpdOutputResult.written =
        gatewayPage plainServer page authtarget client
          { config := config, fw := {}, clients := {} } vars text := by
  intro config authtarget client page vars arrays hall
  have hgateway := (splash_page_iff
    (fun _ => ⟨List.length_replicate .., List.length_replicate ..⟩) (by decide) none).mp hall
  have htok : lookup vars "tok".toList = some "0a1b2c3d".toList :=
    congrArg HttpRequest.tok
      (plainConnection_follows.request_iff.mpr ⟨plainTarget_length, by decide⟩)
  exact absurd (hgateway ("tok".toList, "ffffffff".toList) (by decide) _ htok) (by decide)

end Splash

end WifiCat.Analysis
