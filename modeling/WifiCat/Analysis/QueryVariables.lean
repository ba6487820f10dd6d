import WifiCat.Analysis.RemoteRedirect
import WifiCat.Model.HttpdRequest

/-!
# The variables of a query

`_httpd_storeData` goes through the characters of a query once, and through one memory for all the
names.  Seen as fields, the name of a variable is what stands before the first `=`, and its value
what stands behind the last one; a field without `=` continues with what is left of an earlier
name, and the last field is dropped without one.
-/

set_option autoImplicit false

namespace WifiCat.Analysis

open Scan

/-! ## Fields -/

/-- The name in a field. -/
def fieldName (field : Text) : Text := (fields '=' field).head (fields_ne_nil '=' field)

/-- The value in a field, as it is written. -/
def rawValue (field : Text) : Text := (fields '=' field).getLast (fields_ne_nil '=' field)

/-- The memory of the names behind a field: only an `=` ends a name. -/
def nameMemory (memory field : Text) : Text :=
  if '=' ∈ field then
    fieldName field ++ '\x00' :: memory.drop ((fieldName field).length + 1)
  else field ++ memory.drop field.length

/-- The value that a field gives. -/
def fieldValue (field : Text) : Text := if '=' ∈ field then httpdValue (rawValue field) else []

/-- A field that another one follows. -/
def storeField (st : Text × List HttpVar) (field : Text) : Text × List HttpVar :=
  (nameMemory st.1 field,
    httpdAddVariable st.2 (cString (nameMemory st.1 field)) (fieldValue field))

/-- The variables of the fields; the last field counts only with an `=`. -/
def storeFields : List Text → Text × List HttpVar → List HttpVar
  | [], st => st.2
  | [field], st => if '=' ∈ field then (storeField st field).2 else st.2
  | field :: fs, st => storeFields fs (storeField st field)

/-- A name, an `=`, and what is behind it. -/
theorem fieldName_append {name : Text} (h : '=' ∉ name) (behind : Text) :
    fieldName (name ++ '=' :: behind) = name ∧
      rawValue (name ++ '=' :: behind) = rawValue behind := by
  simp only [fieldName, rawValue, fields_append_sep h, List.head_cons, true_and]
  exact List.getLast_cons (fields_ne_nil '=' behind)

theorem rawValue_of_not_mem {value : Text} (h : '=' ∉ value) : rawValue value = value := by
  simp only [rawValue, fields_of_not_mem h, List.getLast_singleton]

/-- A field is not longer than the text. -/
theorem length_le_of_mem_fields {sep : Char} {s f : Text} (h : f ∈ fields sep s) :
    f.length ≤ s.length := by
  have hsum := length_add_one_eq sep s
  have hle := List.single_le_sum (l := (fields sep s).map List.length) (by simp) f.length
    (List.mem_map_of_mem h)
  have hpos := List.length_pos_iff.mpr (fields_ne_nil sep s)
  omega

/-! ## The loop -/

/-- INTERNAL: the part of the memory that a name is stored to.
SOURCE: protocol.c:379-395 -/
theorem storeLoop_name {name : Text} (heq : '=' ∉ name) (hamp : '&' ∉ name) (pre memory s : Text)
    (vars : List HttpVar) (h : (pre ++ name).length ≤ memory.length) :
    httpdStoreLoop (name ++ s) (pre ++ memory.drop pre.length) pre.length none vars =
      httpdStoreLoop s ((pre ++ name) ++ memory.drop (pre ++ name).length) (pre ++ name).length
        none vars := by
  induction name generalizing pre with
  | nil => simp
  | cons c name ih =>
    rw [List.mem_cons, not_or] at heq hamp
    have hset : (pre ++ memory.drop pre.length).set pre.length c =
        (pre ++ [c]) ++ memory.drop (pre ++ [c]).length := by
      have hlt : pre.length < memory.length := by
        rw [List.length_append, List.length_cons] at h
        omega
      rw [List.drop_eq_getElem_cons hlt, List.set_append_right _ _ (Nat.le_refl _), Nat.sub_self,
        List.set_cons_zero]
      simp
    have hlength : (pre ++ [c]).length = pre.length + 1 := by simp
    rw [List.append_cons pre c name] at h ⊢
    rw [← ih heq.2 hamp.2 (pre ++ [c]) h, ← hset, hlength, List.cons_append, httpdStoreLoop]
    · rintro rfl
      exact absurd rfl heq.1
    · rintro rfl
      exact absurd rfl hamp.1

/-- INTERNAL: a value that is read starts again behind each `=`.
SOURCE: protocol.c:361-391 -/
theorem storeLoop_value {value : Text} (hamp : '&' ∉ value) (written memory s : Text) (place : ℕ)
    (vars : List HttpVar) (h : memory.set place '\x00' = memory) :
    httpdStoreLoop (value ++ s) memory place (some written) vars =
      httpdStoreLoop s memory place
        (some (if '=' ∈ value then rawValue value else written ++ value)) vars := by
  induction value generalizing written with
  | nil => simp
  | cons c value ih =>
    rw [List.mem_cons, not_or] at hamp
    by_cases hc : c = '='
    · subst hc
      have hraw : rawValue ('=' :: value) = rawValue value :=
        (fieldName_append List.not_mem_nil value).2
      rw [List.cons_append, httpdStoreLoop, h, ih hamp.2, if_pos List.mem_cons_self, hraw,
        List.nil_append]
      congr 2
      split
      · rfl
      · next hmem => rw [rawValue_of_not_mem hmem]
    · have hraw : '=' ∈ value → rawValue (c :: value) = rawValue value := by
        intro hmem
        obtain ⟨name, behind, rfl, hname⟩ := List.eq_append_cons_of_mem hmem
        have hname' : '=' ∉ c :: name := by simp [hname, Ne.symm hc]
        rw [← List.cons_append, (fieldName_append hname' behind).2, (fieldName_append hname behind).2]
      rw [List.cons_append, httpdStoreLoop, ih hamp.2]
      · congr 2
        by_cases hmem : '=' ∈ value
        · rw [if_pos hmem, if_pos (List.mem_cons_of_mem c hmem), hraw hmem]
        · rw [if_neg hmem, if_neg (by simp [hmem, Ne.symm hc]), List.append_assoc,
            List.singleton_append]
      · rintro rfl
        exact absurd rfl hc
      · rintro rfl
        exact absurd rfl hamp.1

/-- INTERNAL: a field, up to the sign behind it.
SOURCE: protocol.c:358-398 -/
theorem storeLoop_field {field : Text} (hamp : '&' ∉ field) (memory s : Text)
    (vars : List HttpVar) (h : field.length ≤ memory.length) :
    ∃ place, httpdStoreLoop (field ++ s) memory 0 none vars =
      httpdStoreLoop s (nameMemory memory field) place
        (if '=' ∈ field then some (rawValue field) else none) vars := by
  by_cases hmem : '=' ∈ field
  · obtain ⟨name, behind, rfl, hname⟩ := List.eq_append_cons_of_mem hmem
    obtain ⟨hfield, hraw⟩ := fieldName_append hname behind
    rw [List.mem_append, List.mem_cons, not_or, not_or] at hamp
    rw [List.length_append, List.length_cons] at h
    have hlt : name.length < memory.length := by omega
    have hloop := storeLoop_name hname hamp.1 [] memory ('=' :: behind ++ s) vars
      (by rw [List.nil_append]; omega)
    have hset : (name ++ memory.drop name.length).set name.length '\x00' =
        nameMemory memory (name ++ '=' :: behind) := by
      rw [nameMemory, if_pos hmem, hfield, List.drop_eq_getElem_cons hlt,
        List.set_append_right _ _ (Nat.le_refl _), Nat.sub_self, List.set_cons_zero]
    refine ⟨name.length, ?_⟩
    simp only [List.nil_append, List.length_nil, List.drop_zero] at hloop
    rw [List.append_assoc, hloop, List.cons_append, httpdStoreLoop, hset,
      storeLoop_value hamp.2.2, if_pos hmem, hraw]
    · congr 2
      split
      · rfl
      · next hvalue => rw [List.nil_append, rawValue_of_not_mem hvalue]
    · rw [← hset, List.set_set]
  · have hloop := storeLoop_name hmem hamp [] memory s vars h
    simp only [List.nil_append, List.length_nil, List.drop_zero] at hloop
    rw [hloop, nameMemory, if_neg hmem, if_neg hmem]
    exact ⟨_, rfl⟩

theorem length_nameMemory {memory field : Text} (h : field.length ≤ memory.length) :
    (nameMemory memory field).length = memory.length := by
  unfold nameMemory
  split
  · next hmem =>
    obtain ⟨name, behind, rfl, hname⟩ := List.eq_append_cons_of_mem hmem
    rw [(fieldName_append hname behind).1]
    simp only [List.length_append, List.length_cons, List.length_drop] at h ⊢
    omega
  · simp only [List.length_append, List.length_drop]
    omega

/-- INTERNAL: the fields one after the other, through the one memory.
SOURCE: protocol.c:358-404 -/
theorem storeLoop_unfields {fs : List Text} (hne : fs ≠ []) (hamp : ∀ f ∈ fs, '&' ∉ f)
    {memory : Text} (h : ∀ f ∈ fs, f.length ≤ memory.length) (vars : List HttpVar) :
    httpdStoreLoop (unfields '&' fs) memory 0 none vars = storeFields fs (memory, vars) := by
  induction fs generalizing memory vars with
  | nil => exact absurd rfl hne
  | cons field fs ih =>
    rw [List.forall_mem_cons] at hamp h
    cases fs with
    | nil =>
      obtain ⟨place, hloop⟩ := storeLoop_field hamp.1 memory [] vars h.1
      rw [List.append_nil] at hloop
      rw [unfields, List.intercalate_singleton, hloop, storeFields]
      by_cases hmem : '=' ∈ field
      · rw [if_pos hmem, if_pos hmem, httpdStoreLoop, storeField, fieldValue, if_pos hmem]
      · rw [if_neg hmem, if_neg hmem, httpdStoreLoop]
    | cons field' fs =>
      obtain ⟨place, hloop⟩ :=
        storeLoop_field hamp.1 memory ('&' :: unfields '&' (field' :: fs)) vars h.1
      have hcons : unfields '&' (field :: field' :: fs) =
          field ++ '&' :: unfields '&' (field' :: fs) := by
        simp [unfields, List.intercalate_cons_cons]
      have hvalue : httpdValue ((if '=' ∈ field then some (rawValue field) else none).getD []) =
          fieldValue field := by
        unfold fieldValue
        split <;> rfl
      have hlength : ∀ f ∈ field' :: fs, f.length ≤ (nameMemory memory field).length := by
        intro f hf
        rw [length_nameMemory h.1]
        exact h.2 f hf
      rw [hcons, hloop, httpdStoreLoop, hvalue, storeFields, storeField,
        ih (List.cons_ne_nil _ _) hamp.2 hlength]
      simp

/-- **A query is read field by field**: each field but the last gives a variable, and the last one
if it has an `=`; the name ends at the first `=` or, without one, where the memory of the earlier
names happens to end, and the value starts behind the last `=`.
SOURCE: protocol.c:340-406 -/
theorem storeData_eq_storeFields (vars : List HttpVar) (query : Text) :
    httpdStoreData vars query =
      storeFields (fields '&' query) (List.replicate query.length '\x00', vars) := by
  have hlength : ∀ f ∈ fields '&' query, f.length ≤ (List.replicate query.length '\x00').length := by
    intro f hf
    rw [List.length_replicate]
    exact length_le_of_mem_fields hf
  have hloop := storeLoop_unfields (fields_ne_nil '&' query)
    (fun f hf => not_mem_of_mem_fields hf) hlength vars
  rwa [unfields_fields] at hloop

/-! ## Looking up -/

/-- The name under which a variable is kept. -/
def keptName (name : Text) : Text := name.dropWhile fun c => c = ' ' ∨ c = '\t'

/-- INTERNAL: a variable keeps its first value.
SOURCE: api.c:89-101, 171-192 -/
theorem getVariable_append (vars : List HttpVar) (name value name' : Text) :
    (httpdGetVariableByName (httpdAppendVariable name value vars) name').map HttpVar.value =
      ((httpdGetVariableByName vars name').map HttpVar.value).or
        (if name = name' then some value else none) := by
  unfold httpdGetVariableByName
  induction vars with
  | nil => by_cases h : name = name' <;> simp [httpdAppendVariable, h]
  | cons var vars ih =>
    rw [httpdAppendVariable]
    by_cases hvar : var.name = name
    · rw [if_neg (not_not.mpr hvar)]
      by_cases hname : var.name = name'
      · simp [hname]
      · have hne : name ≠ name' := fun h => hname (hvar.trans h)
        simp [hname, hne]
    · rw [if_pos hvar]
      by_cases hname : var.name = name'
      · simp [hname]
      · rw [List.find?_cons_of_neg (by simp [hname]), ih, List.find?_cons_of_neg (by simp [hname])]

theorem getVariable_add (vars : List HttpVar) (name value name' : Text) :
    (httpdGetVariableByName (httpdAddVariable vars name value) name').map HttpVar.value =
      ((httpdGetVariableByName vars name').map HttpVar.value).or
        (if keptName name = name' then some value else none) :=
  getVariable_append vars _ value name'

/-- INTERNAL: variables that are added one after the other.
SOURCE: api.c:159-193 -/
theorem getVariable_foldl (ps : List (Text × Text)) (vars : List HttpVar) (name : Text) :
    (httpdGetVariableByName (ps.foldl (fun vars p => httpdAddVariable vars p.1 p.2) vars) name).map
        HttpVar.value =
      ((httpdGetVariableByName vars name).map HttpVar.value).or
        ((ps.find? fun p => keptName p.1 = name).map Prod.snd) := by
  induction ps generalizing vars with
  | nil => simp
  | cons p ps ih =>
    rw [List.foldl_cons, ih, getVariable_add, Option.or_assoc]
    congr 1
    by_cases hp : keptName p.1 = name
    · rw [if_pos hp, List.find?_cons_of_pos (by simp [hp])]
      rfl
    · rw [if_neg hp, List.find?_cons_of_neg (by simp [hp])]
      rfl

/-! ## What was encoded -/

/-- INTERNAL: decoding undoes the encoding, but for the `+` that the encoding keeps.
SOURCE: protocol.c:289-316, 691-720 -/
theorem unescapeLoop_urlEncode (str out s : Text) {value : Text} (hbytes : Query.Bytes value) :
    httpdUnescapeLoop str out (Query.percentEncode acceptable value ++ s) =
      httpdUnescapeLoop str (out ++ Query.plusToSpace value) s := by
  have hhex : ∀ d < 16, httpdFromHex (Query.upperHex d) = d := by decide
  induction value generalizing out with
  | nil => simp [Query.plusToSpace]
  | cons c value ih =>
    have hc : c.toNat < 256 := hbytes c List.mem_cons_self
    rw [Query.percentEncode_cons, Query.percentEncodeChar, Query.plusToSpace_cons]
    by_cases hkeep : acceptable c = true
    · rw [if_pos hkeep, List.append_assoc, List.singleton_append]
      by_cases hplus : c = '+'
      · rw [if_pos hplus, hplus, httpdUnescapeLoop, ih _ hbytes.tail, List.append_assoc,
          List.singleton_append]
      · have hpercent : c ≠ '%' := by
          rintro rfl
          rw [acceptable_keepsPlus.percent] at hkeep
          cases hkeep
        rw [if_neg hplus, httpdUnescapeLoop, ih _ hbytes.tail, List.append_assoc,
          List.singleton_append]
        all_goals simp [hpercent, hplus]
    · have hplus : c ≠ '+' := by
        rintro rfl
        exact hkeep acceptable_keepsPlus.plus
      have hvalue : (c.toNat / 16 * 16 + c.toNat % 16) % 256 = c.toNat := by omega
      rw [if_neg hkeep, if_neg hplus]
      show httpdUnescapeLoop str out ('%' :: Query.upperHex (c.toNat / 16) ::
        Query.upperHex (c.toNat % 16) :: (Query.percentEncode acceptable value ++ s)) = _
      rw [httpdUnescapeLoop, hhex _ (by omega), hhex _ (by omega), hvalue, ih _ hbytes.tail,
        Char.ofNat_toNat, List.append_assoc, List.singleton_append]

theorem httpdValue_urlEncode {value : Text} (hbytes : Query.Bytes value) (hnul : '\x00' ∉ value) :
    httpdValue (httpdUrlEncode value) = Query.plusToSpace value := by
  have hclean : '\x00' ∉ Query.plusToSpace value := by
    rwa [Query.mem_plusToSpace (by decide) (by decide)]
  have hloop := unescapeLoop_urlEncode (Query.percentEncode acceptable value) [] [] hbytes
  rw [List.append_nil, List.nil_append] at hloop
  rw [httpdUrlEncode_eq hbytes, httpdValue, httpdUnescape, hloop, httpdUnescapeLoop,
    cString_of_not_mem hclean]

/-- A name that is read as it is written. -/
def ReadsAsItself (name : Text) : Prop :=
  '=' ∉ name ∧ '&' ∉ name ∧ '\x00' ∉ name ∧ keptName name = name

instance (name : Text) : Decidable (ReadsAsItself name) := inferInstanceAs (Decidable (_ ∧ _))

/-- A query with encoded values. -/
def encodedQuery (ps : List (Text × Text)) : Text :=
  unfields '&' (ps.map fun p => p.1 ++ '=' :: httpdUrlEncode p.2)

theorem storeFields_of_forall {fs : List Text} (h : ∀ f ∈ fs, '=' ∈ f)
    (st : Text × List HttpVar) : storeFields fs st = (fs.foldl storeField st).2 := by
  induction fs generalizing st with
  | nil => rfl
  | cons field fs ih =>
    rw [List.forall_mem_cons] at h
    cases fs with
    | nil =>
      rw [storeFields, if_pos h.1]
      rfl
    | cons field' fs =>
      rw [storeFields, ih h.2]
      · rfl
      · exact List.cons_ne_nil field' fs

/-- INTERNAL: a field with a name.
SOURCE: protocol.c:361-379 -/
theorem storeField_name {name : Text} (hname : ReadsAsItself name) (value : Text)
    (st : Text × List HttpVar) :
    (storeField st (name ++ '=' :: value)).2 =
      httpdAddVariable st.2 name (httpdValue (rawValue value)) := by
  obtain ⟨heq, -, hclean, -⟩ := hname
  have hmem : '=' ∈ name ++ '=' :: value := by simp
  obtain ⟨hfield, hvalue⟩ := fieldName_append heq value
  rw [storeField, nameMemory, if_pos hmem, fieldValue, if_pos hmem, hfield, hvalue,
    cString_append_nul, cString_of_not_mem hclean]

/-- INTERNAL: a field with an encoded value. -/
theorem storeField_encoded {p : Text × Text} (hname : ReadsAsItself p.1)
    (hbytes : Query.Bytes p.2) (hnul : '\x00' ∉ p.2) (st : Text × List HttpVar) :
    (storeField st (p.1 ++ '=' :: httpdUrlEncode p.2)).2 =
      httpdAddVariable st.2 p.1 (Query.plusToSpace p.2) := by
  have hraw : '=' ∉ httpdUrlEncode p.2 := by
    rw [httpdUrlEncode_eq hbytes]
    exact Query.KeepsPlus.not_mem acceptable_keepsPlus.eq (by decide) (by decide) hbytes
  rw [storeField_name hname, rawValue_of_not_mem hraw, httpdValue_urlEncode hbytes hnul]

/-- INTERNAL: a query with encoded values gives its variables one after the other. -/
theorem storeData_encodedQuery {ps : List (Text × Text)}
    (hnames : ∀ p ∈ ps, ReadsAsItself p.1)
    (hvalues : ∀ p ∈ ps, Query.Bytes p.2 ∧ '\x00' ∉ p.2) :
    httpdStoreData [] (encodedQuery ps) =
      (ps.map fun p => (p.1, Query.plusToSpace p.2)).foldl
        (fun vars p => httpdAddVariable vars p.1 p.2) [] := by
  have hfold : ∀ st : Text × List HttpVar,
      ((ps.map fun p => p.1 ++ '=' :: httpdUrlEncode p.2).foldl storeField st).2 =
        (ps.map fun p => (p.1, Query.plusToSpace p.2)).foldl
          (fun vars p => httpdAddVariable vars p.1 p.2) st.2 := by
    induction ps with
    | nil => exact fun _ => rfl
    | cons p ps ih =>
      intro st
      rw [List.forall_mem_cons] at hnames hvalues
      rw [List.map_cons, List.foldl_cons, ih hnames.2 hvalues.2, List.map_cons, List.foldl_cons,
        storeField_encoded hnames.1 hvalues.1.1 hvalues.1.2]
  rcases List.eq_nil_or_concat ps with rfl | hps
  · rfl
  · have hne : (ps.map fun p => p.1 ++ '=' :: httpdUrlEncode p.2) ≠ [] := by
      obtain ⟨init, p, rfl⟩ := hps
      simp
    have hamp : ∀ f ∈ ps.map fun p => p.1 ++ '=' :: httpdUrlEncode p.2, '&' ∉ f := by
      intro f hf
      obtain ⟨p, hp, rfl⟩ := List.mem_map.mp hf
      have hvalue : '&' ∉ httpdUrlEncode p.2 := by
        rw [httpdUrlEncode_eq (hvalues p hp).1]
        exact Query.KeepsPlus.not_mem acceptable_keepsPlus.amp (by decide) (by decide)
          (hvalues p hp).1
      simp [(hnames p hp).2.1, hvalue]
    have heq : ∀ f ∈ ps.map fun p => p.1 ++ '=' :: httpdUrlEncode p.2, '=' ∈ f := by
      intro f hf
      obtain ⟨p, -, rfl⟩ := List.mem_map.mp hf
      simp
    rw [storeData_eq_storeFields, encodedQuery, fields_unfields hne hamp,
      storeFields_of_forall heq, hfold]

/-- INTERNAL: what is looked up in a query with encoded values. -/
theorem getVariable_encodedQuery {ps : List (Text × Text)}
    (hnames : ∀ p ∈ ps, ReadsAsItself p.1)
    (hvalues : ∀ p ∈ ps, Query.Bytes p.2 ∧ '\x00' ∉ p.2) (name : Text) :
    (httpdGetVariableByName (httpdStoreData [] (encodedQuery ps)) name).map HttpVar.value =
      (ps.find? fun p => p.1 = name).map fun p => Query.plusToSpace p.2 := by
  have hfind : (ps.map fun p => (p.1, Query.plusToSpace p.2)).find?
      (fun p => keptName p.1 = name) =
        (ps.find? fun p => p.1 = name).map fun p => (p.1, Query.plusToSpace p.2) := by
    rw [List.find?_map]
    congr 1
    refine List.find?_congr fun p hp => ?_
    dsimp only [Function.comp]
    rw [(hnames p hp).2.2.2]
  rw [storeData_encodedQuery hnames hvalues, getVariable_foldl, hfind, Option.map_map]
  rfl

/-- **An encoded query is read back** exactly when no first value of a variable has a `+`, which
the encoder keeps and the reader takes for a blank.
SOURCE: api.c:52-72, 159-193, protocol.c:289-316, 340-406, 691-720 -/
theorem query_roundtrip_iff (ps : List (Text × Text)) (hnames : ∀ p ∈ ps, ReadsAsItself p.1)
    (hvalues : ∀ p ∈ ps, Query.Bytes p.2 ∧ '\x00' ∉ p.2) :
    (∀ name, (httpdGetVariableByName (httpdStoreData [] (encodedQuery ps)) name).map
        HttpVar.value = (ps.find? fun p => p.1 = name).map Prod.snd) ↔
      ∀ p ∈ ps, (ps.find? fun q => q.1 = p.1) = some p → '+' ∉ p.2 := by
  simp only [getVariable_encodedQuery hnames hvalues]
  constructor
  · intro h p _ hfirst
    have hp := h p.1
    rw [hfirst, Option.map_some, Option.map_some, Option.some.injEq] at hp
    exact Query.plusToSpace_eq_self.mp hp
  · intro h name
    cases hfirst : ps.find? fun p => p.1 = name with
    | none => rfl
    | some p =>
      have hname : p.1 = name := by simpa using List.find?_some hfirst
      have hplus := h p (List.mem_of_find?_eq_some hfirst) (hname.symm ▸ hfirst)
      rw [Option.map_some, Option.map_some, Query.plusToSpace_eq_self.mpr hplus]

/-- A token with a blank, behind an empty redirect. -/
theorem query_roundtrip_sample :
    (httpdGetVariableByName (httpdStoreData [] (encodedQuery
        [("redir".toList, []), ("tok".toList, "a b".toList)])) "tok".toList).map HttpVar.value =
      some "a b".toList := by
  have hread := (query_roundtrip_iff [("redir".toList, []), ("tok".toList, "a b".toList)]
    (by decide) (by decide)).mpr (by decide)
  exact (hread "tok".toList).trans (by decide)

end WifiCat.Analysis
