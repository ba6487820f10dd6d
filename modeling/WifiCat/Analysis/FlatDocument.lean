import WifiCat.Analysis.JsmnObject
import WifiCat.Analysis.ResponseChunks
import WifiCat.Analysis.ServerDocument

/-!
# Documents that are applied as they are meant

A flat object means a list of pairs when its keys are keys of the configuration, with values
of their kind that fit into the buffer (`Means`).  On the tokens of such an object the walk
lands on every key and on nothing else, and what it hands on are the texts of the tokens
(`confWalk_members`); whether the call returns then depends only on what it frees
(`applied_exactly_iff`).
-/

set_option autoImplicit false

namespace WifiCat.Analysis

open Scan WifiCat JsonText

/-- What a member means: a key with a scalar, a short one for a number, or the key of a list
with an array of short strings. -/
inductive Means : Member → ConfPair → Prop
  | text {name : Text} {key : TextKey} (v : Scalar) (hkey : (name, ConfKey.text key) ∈ confKeys) :
      Means { key := name, value := .scalar v } (.text key v.text)
  | number {name : Text} {key : NumberKey} {v : Scalar}
      (hkey : (name, ConfKey.number key) ∈ confKeys) (hfits : v.text.length ≤ 31) :
      Means { key := name, value := .scalar v } (.number key v.text)
  | list {name : Text} {key : ListKey} {es : List Text}
      (hkey : (name, ConfKey.list key) ∈ confKeys) (hfits : ∀ e ∈ es, e.length < key.cleared) :
      Means { key := name, value := .array es } (.list key es)

/-! ## Keys -/

/-- No two keys have the same name. -/
theorem find_confKeys {entry : Text × ConfKey} (h : entry ∈ confKeys) :
    confKeys.find? (fun e => decide (e.1 = entry.1)) = some entry := by
  have hall : ∀ entry ∈ confKeys,
      confKeys.find? (fun e => decide (e.1 = entry.1)) = some entry := by decide +kernel
  exact hall entry h

theorem IsPiece.len {js text : Text} {type : JsmnType} {tok : JsmnToken}
    (h : IsPiece js type text tok) : tok.len = text.length := by
  simp only [JsmnToken.len, h.stop]
  omega

/-- A string token is the key whose name it spells. -/
theorem IsPiece.confKey {js name : Text} {key : ConfKey} {tok : JsmnToken}
    (h : IsPiece js .string name tok) (hkey : (name, key) ∈ confKeys) :
    WifiCat.confKey js tok = some key := by
  have hfun : (fun entry : Text × ConfKey => jsoneq js tok entry.1) =
      fun entry => decide (entry.1 = name) := by
    funext entry
    have hiff : (tok.type = .string ∧ (entry.1.length : ℤ) = tok.len ∧ tok.text js = entry.1) ↔
        entry.1 = name := by
      rw [h.type, h.len, h.text]
      constructor
      · rintro ⟨-, -, heq⟩
        exact heq.symm
      · rintro heq
        exact ⟨rfl, by rw [heq], heq.symm⟩
    exact decide_eq_decide.mpr hiff
  rw [WifiCat.confKey, hfun, find_confKeys hkey]
  rfl

/-! ## The buffer -/

/-- A text shorter than what has been cleared is read back as it is. -/
theorem cString_clearAndCopy {n : ℕ} {text : Text} (hlen : text.length < n)
    (hnul : '\x00' ∉ text) (tmp : Text) : cString (clearAndCopy n text tmp) = text := by
  have hrest : (List.replicate n '\x00' ++ tmp.drop n).drop text.length =
      '\x00' :: (List.replicate (n - text.length - 1) '\x00' ++ tmp.drop n) := by
    rw [List.drop_append_of_le_length (by simp; omega), List.drop_replicate]
    obtain ⟨k, hk⟩ : ∃ k, n - text.length = k + 1 := ⟨n - text.length - 1, by omega⟩
    rw [hk, List.replicate_succ]
    simp
  rw [clearAndCopy, hrest, cString_append_nul, cString_of_not_mem hnul]

theorem exists_piece {js : Text} {es : List Text} {toks : List JsmnToken} {tok : JsmnToken}
    (h : List.Forall₂ (IsPiece js .string) es toks) (htok : tok ∈ toks) :
    ∃ e ∈ es, IsPiece js .string e tok := by
  induction h with
  | nil => cases htok
  | cons hpiece _ ih =>
    rcases List.mem_cons.mp htok with rfl | htok
    · exact ⟨_, List.mem_cons_self, hpiece⟩
    · obtain ⟨e, he, hpiece⟩ := ih htok
      exact ⟨e, List.mem_cons_of_mem _ he, hpiece⟩

/-- Short elements are handed on as they are. -/
theorem readElements_pieces {js : Text} {n : ℕ} {es : List Text} {toks : List JsmnToken}
    (hjs : '\x00' ∉ js) (h : List.Forall₂ (IsPiece js .string) es toks)
    (hfits : ∀ e ∈ es, e.length < n) (tmp : Text) : (readElements js n toks tmp).1 = es := by
  induction h generalizing tmp with
  | nil => rfl
  | cons hpiece _ ih =>
    rw [readElements, hpiece.text, ih (fun e he => hfits e (List.mem_cons_of_mem _ he)),
      cString_clearAndCopy (hfits _ List.mem_cons_self) (hpiece.text ▸ not_mem_text hjs _)]

/-! ## One pair -/

section Pair

variable (js : Text) (t : ℕ → JsmnToken) (dns : Dns) (res : ℕ)

/-- The pair frees no string literal. -/
def FreesNoLiteral (c : ServerConfig) : ConfPair → Bool
  | .text key _ => !c.literal key
  | _ => true

theorem ListKey.add_literal (key : ListKey) (text : Text) (a : Applied) :
    (key.add dns text a).config.literal = a.config.literal := by
  cases key <;> rfl

theorem addAll_literal (key : ListKey) (elements : List Text) (a : Applied) :
    (elements.foldl (fun a element => key.add dns element a) a).config.literal =
      a.config.literal := by
  induction elements generalizing a with
  | nil => rfl
  | cons element elements ih => rw [List.foldl_cons, ih, ListKey.add_literal]

theorem confText_log (key : TextKey) {i : ℕ} (w : ConfWalk) (hi : i + 1 < res) :
    (confText js t key i w).log.all (ConfAccess.defined res) =
      (!w.applied.config.literal key && w.log.all (ConfAccess.defined res)) := by
  simp [confText, ConfAccess.defined, hi]

theorem copy_log (n : ℕ) (tok : JsmnToken) (w : ConfWalk) :
    (w.copy js n tok).log.all (ConfAccess.defined res) =
      (decide (0 ≤ tok.len ∧ tok.len < 128) && w.log.all (ConfAccess.defined res)) := by
  simp [ConfWalk.copy, ConfAccess.defined]

theorem confNumber_log (key : NumberKey) {i : ℕ} (w : ConfWalk) (hi : i + 1 < res) :
    (confNumber js t key i w).log.all (ConfAccess.defined res) =
      (decide (0 ≤ (t (i + 1)).len ∧ (t (i + 1)).len < 128) &&
        w.log.all (ConfAccess.defined res)) := by
  have hcopy := copy_log js res 32 (t (i + 1)) { w with log := .token (i + 1) :: w.log }
  rw [List.all_cons, ConfAccess.defined, decide_eq_true hi, Bool.true_and] at hcopy
  exact hcopy

theorem confElements_log (key : ListKey) {i : ℕ} (js' : List ℕ) (w : ConfWalk)
    (hin : ∀ j ∈ js', i + j + 2 < res) :
    (js'.foldl (fun w j => confElement js t dns key (i + j + 2) w) w).log.all
        (ConfAccess.defined res) =
      ((js'.map fun j => t (i + j + 2)).all (fun tok => decide (0 ≤ tok.len ∧ tok.len < 128)) &&
        w.log.all (ConfAccess.defined res)) := by
  induction js' generalizing w with
  | nil => rfl
  | cons j js' ih =>
    have hi := hin j List.mem_cons_self
    have hcopy := copy_log js res key.cleared (t (i + j + 2))
      { w with log := .token (i + j + 2) :: w.log }
    rw [List.all_cons, ConfAccess.defined, decide_eq_true hi, Bool.true_and] at hcopy
    rw [List.foldl_cons, ih _ fun j hj => hin j (List.mem_cons_of_mem _ hj), List.map_cons,
      List.all_cons, confElement, hcopy, Bool.and_left_comm, Bool.and_assoc]

/-- The elements of an array that is there are read and copied without harm when they are
short. -/
theorem confList_log (key : ListKey) {i : ℕ} (w : ConfWalk) (harray : (t (i + 1)).type = .array)
    (hroom : i + 1 + (t (i + 1)).size < res) :
    (confList js t dns key i w).2.log.all (ConfAccess.defined res) =
      ((elementTokens t i).all (fun tok => decide (0 ≤ tok.len ∧ tok.len < 128)) &&
        w.log.all (ConfAccess.defined res)) := by
  have hin : ∀ j ∈ List.range (t (i + 1)).size, i + j + 2 < res := by
    intro j hj
    have hlt := List.mem_range.mp hj
    omega
  have hi : (ConfAccess.token (i + 1)).defined res = true := by
    have hlt : i + 1 < res := by omega
    simpa [ConfAccess.defined] using hlt
  simp only [confList, harray, ne_eq, not_true_eq_false, if_false]
  rw [confElements_log js t dns res key _ _ hin, List.all_cons, hi, Bool.true_and]
  rfl

/-- A pair that frees no string literal leaves the others what they are. -/
theorem apply_literal {a : Applied} {pair : ConfPair}
    (h : FreesNoLiteral a.config pair = true) :
    (pair.apply dns a).config.literal = a.config.literal := by
  cases pair with
  | text key value =>
    have hfalse : a.config.literal key = false := by simpa [FreesNoLiteral] using h
    have hkeep : Function.update a.config.literal key false = a.config.literal := by
      rw [← hfalse, Function.update_eq_self]
    cases key <;> exact hkeep
  | number key value => cases key <;> rfl
  | list key elements => exact addAll_literal dns key elements a

theorem freesNoLiteral_congr {c c' : ServerConfig} (h : c.literal = c'.literal) :
    FreesNoLiteral c = FreesNoLiteral c' := by
  funext pair
  cases pair <;> simp [FreesNoLiteral, h]

end Pair

/-! ## The walk over the members -/

/-- INTERNAL: On the tokens of a member the walk applies its pair and goes on at the token
behind them.
SOURCE: conf.c:838-1003 -/
theorem confWalk_member {js : Text} {garbage : ℕ → JsmnToken} {all value toks : List JsmnToken}
    {key : JsmnToken} {dns : Dns} {m : Member} {pair : ConfPair} {i : ℕ} (fuel : ℕ) (w : ConfWalk)
    (hjs : '\x00' ∉ js) (hm : Means m pair) (hkey : IsPiece js .string m.key key)
    (hvalue : ValueTokens js m.value value) (hdrop : all.drop i = key :: value ++ toks) :
    ∃ w' : ConfWalk, confWalk js (tokenArray garbage all) dns all.length (fuel + 1) i w =
        confWalk js (tokenArray garbage all) dns all.length fuel (i + (value.length + 1)) w' ∧
      w'.applied = pair.apply dns w.applied ∧
      w'.log.all (ConfAccess.defined all.length) =
        (w.log.all (ConfAccess.defined all.length) && FreesNoLiteral w.applied.config pair) := by
  have hi := lt_length_of_drop hdrop
  have hkeyAt : tokenArray garbage all i = key := tokenArray_of_drop hdrop
  have hdrop1 : all.drop (i + 1) = value ++ toks := drop_succ_of_drop hdrop
  have hlog : (ConfAccess.token i).defined all.length = true := by
    simpa [ConfAccess.defined] using hi
  rw [confWalk, if_pos hi, hkeyAt]
  cases hm with
  | text v hname =>
    obtain ⟨hpiece⟩ := hvalue
    next tok =>
    have hi1 := lt_length_of_drop hdrop1
    have htok : tokenArray garbage all (i + 1) = tok := tokenArray_of_drop hdrop1
    simp only [hkey.confKey hname]
    refine ⟨_, rfl, ?_, ?_⟩
    · rw [(confText_reads js _ dns _ i _).2, htok, hpiece.text]
    · rw [confText_log _ _ _ _ _ hi1, List.all_cons, hlog, Bool.true_and, Bool.and_comm]
      rfl
  | number hname hfits =>
    obtain ⟨hpiece⟩ := hvalue
    next tok =>
    have hi1 := lt_length_of_drop hdrop1
    have htok : tokenArray garbage all (i + 1) = tok := tokenArray_of_drop hdrop1
    simp only [hkey.confKey hname]
    refine ⟨_, rfl, ?_, ?_⟩
    · rw [(confNumber_reads js _ dns _ i _).2, htok, hpiece.text,
        cString_clearAndCopy (by omega) (hpiece.text ▸ not_mem_text hjs tok)]
    · have hshort : 0 ≤ tok.len ∧ tok.len < 128 := by
        rw [hpiece.len]
        omega
      rw [confNumber_log _ _ _ _ _ hi1, htok, decide_eq_true hshort, Bool.true_and, List.all_cons,
        hlog, Bool.true_and]
      simp [FreesNoLiteral]
  | @list name key es hname hfits =>
    cases hvalue with
    | @array es arr els htype hclosed hsize hpieces =>
      have hi1 := lt_length_of_drop hdrop1
      have harr : tokenArray garbage all (i + 1) = arr := tokenArray_of_drop hdrop1
      have hdrop2 : all.drop (i + 2) = els ++ toks := drop_succ_of_drop hdrop1
      have hlen : es.length = els.length := hpieces.length_eq
      have hels : elementTokens (tokenArray garbage all) i = els :=
        elementTokens_eq hdrop2 (by rw [harr, hsize, hlen])
      have hreads := confList_reads js (tokenArray garbage all) dns key i
        { w with log := .token i :: w.log }
      simp only [harr, htype, if_true, hels, readElements_pieces hjs hpieces hfits] at hreads
      obtain ⟨hok, -, happlied⟩ := hreads
      have hnext : i + (tokenArray garbage all (i + 1)).size + 2 =
          i + ((arr :: els).length + 1) := by
        rw [harr, hsize, hlen, List.length_cons]
        omega
      simp only [hkey.confKey hname]
      rw [if_pos hok, hnext]
      have hroom : i + 1 + (tokenArray garbage all (i + 1)).size < all.length := by
        have hcount := congrArg List.length hdrop2
        rw [List.length_drop, List.length_append] at hcount
        rw [harr, hsize, hlen]
        omega
      have hshort : (elementTokens (tokenArray garbage all) i).all
          (fun tok => decide (0 ≤ tok.len ∧ tok.len < 128)) = true := by
        rw [hels, List.all_eq_true]
        intro tok htok
        obtain ⟨e, he, hpiece⟩ := exists_piece hpieces htok
        have hcleared : key.cleared ≤ 128 := by cases key <;> decide
        have hfit := hfits e he
        rw [hpiece.len]
        exact decide_eq_true (by omega)
      refine ⟨_, rfl, happlied, ?_⟩
      rw [confList_log js _ dns _ key _ (by rw [harr, htype]) hroom, hshort, Bool.true_and,
        List.all_cons, hlog, Bool.true_and]
      simp [FreesNoLiteral]

/-- INTERNAL: On the tokens of a document the walk applies its pairs and returns 1, and what it
does is defined when no pair frees a string literal.
SOURCE: conf.c:838-1003 -/
theorem confWalk_members {js : Text} {garbage : ℕ → JsmnToken} {all toks : List JsmnToken}
    {dns : Dns} {ms : List Member} {pairs : List ConfPair} {i fuel : ℕ} {w : ConfWalk}
    (hjs : '\x00' ∉ js) (hms : List.Forall₂ Means ms pairs) (htoks : MembersTokens js ms toks)
    (hdrop : all.drop i = toks) (hfuel : toks.length ≤ fuel) :
    let out := confWalk js (tokenArray garbage all) dns all.length fuel i w
    out.1 = 1 ∧ out.2.applied = applyPairs dns pairs w.applied ∧
      out.2.log.all (ConfAccess.defined all.length) =
        (w.log.all (ConfAccess.defined all.length) &&
          pairs.all (FreesNoLiteral w.applied.config)) := by
  induction hms generalizing toks i fuel w with
  | nil =>
    cases htoks
    have hend : ¬i < all.length := by
      have := List.drop_eq_nil_iff.mp hdrop
      omega
    cases fuel with
    | zero => exact ⟨rfl, rfl, by simp [confWalk]⟩
    | succ fuel =>
      rw [confWalk, if_neg hend]
      exact ⟨rfl, rfl, by simp⟩
  | @cons m pair ms pairs hm _ ih =>
    cases htoks with
    | @cons _ _ key value toks hkey hvalue hrest =>
      obtain ⟨fuel, rfl⟩ : ∃ n, fuel = n + 1 := ⟨fuel - 1, by simp at hfuel; omega⟩
      simp only [List.length_append, List.length_cons] at hfuel
      obtain ⟨w', hwalk, happlied, hlog⟩ :=
        confWalk_member fuel w hjs hm hkey hvalue hdrop
      have hbehind : all.drop (i + (value.length + 1)) = toks := by
        rw [← List.drop_drop, hdrop]
        exact List.drop_left
      have hfuel' : toks.length ≤ fuel := by omega
      obtain ⟨hres, happ, hall⟩ := ih (w := w') hrest hbehind hfuel'
      rw [hwalk]
      refine ⟨hres, by rw [happ, happlied, applyPairs_cons], ?_⟩
      rw [hall, hlog, List.all_cons, Bool.and_assoc]
      cases hfree : FreesNoLiteral w.applied.config pair with
      | false => rfl
      | true =>
        have hsame : FreesNoLiteral w'.applied.config = FreesNoLiteral w.applied.config := by
          rw [happlied]
          exact freesNoLiteral_congr (apply_literal dns hfree)
        rw [hsame]

/-! ## The call -/

/-- The configuration server answers a call with a response, piece by piece, and closes the
connection. -/
structure Answers (m : ConfMoment) (c : ServerConfig) (response : Text) : Prop where
  resolves : ∃ ip, resolveHost m.net.lookup c.authServer m.fuel 0 = some (some ip)
  connects : connectAuthServer m.net.connect = true
  closes : m.net.ending = .closed
  chunks : ∀ chunk ∈ m.net.chunks, chunk ≠ []
  response : m.net.chunks.flatten = response

/-- A response that fits into the buffer is read whole. -/
theorem readResponse_flatten {chunks : List Text} {room : ℕ} (hne : ∀ chunk ∈ chunks, chunk ≠ [])
    (hroom : chunks.flatten.length ≤ room) :
    readResponse .closed room chunks = some chunks.flatten := by
  rw [readResponse_closed hne, List.take_of_length_le hroom]

/-- The document of an answer is what stands behind its headers. -/
theorem Answers.document {m : ConfMoment} {c : ServerConfig} {response : Text}
    (h : Answers m c response) (hlen : response.length < 8192) :
    serverDocument m c = strstrAfter CRLFCRLF (cString response) := by
  obtain ⟨ip, hip⟩ := h.resolves
  have hread : readResponse .closed (8192 - 1) m.net.chunks = some response := by
    rw [readResponse_flatten h.chunks (by rw [h.response]; omega), h.response]
  simp only [serverDocument, configExchange, hip, Option.map_some, Option.bind_some,
    httpGetRequest, h.connects, if_true, h.closes, hread]

/-- What happens to a document that is as it should be. -/
theorem configFromServer_flat {m : ConfMoment} {c : ServerConfig} {json : Text} {ms : List Member}
    {pairs : List ConfPair} (hdoc : serverDocument m c = some json) (hjs : '\x00' ∉ json)
    (hspells : Spells ms json) (hpieces : pieces ms ≤ 256) (hms : List.Forall₂ Means ms pairs) :
    configFromServer m c = some
      (if pairs.all (FreesNoLiteral c) then
        .returned 1 (applyPairs m.dns pairs { config := c }).config
      else .undefined) := by
  obtain ⟨obj, toks, hparse, hobject, htoks⟩ := jsmnParse_spells hspells hpieces
  obtain ⟨hres, happlied, hlog⟩ :=
    @confWalk_members _ m.garbage (obj :: toks) toks m.dns _ _ 1 (toks.length + 1)
      { applied := { config := c }, tmp := m.tmp, log := [.token 0] } hjs hms htoks rfl
      (Nat.le_succ _)
  rw [configFromServer_of_document hdoc]
  simp only [confFromJson, hparse, hobject, ne_eq, not_true_eq_false, if_false]
  rw [List.length_cons] at hres happlied hlog
  rw [hlog, hres, happlied]
  simp [ConfAccess.defined]

/-- **A well-formed document is applied as it is meant**, and the call returns 1, if and only if
none of its text keys names a field that still holds a string literal.
SOURCE: conf.c:794-1004, 311-313 -/
theorem applied_exactly_iff (m : ConfMoment) (c : ServerConfig) (response json : Text)
    (ms : List Member) (pairs : List ConfPair) (hanswer : Answers m c response)
    (hlen : response.length < 8192) (hbody : strstrAfter CRLFCRLF (cString response) = some json)
    (hspells : Spells ms json) (hpieces : pieces ms ≤ 256) (hms : List.Forall₂ Means ms pairs) :
    configFromServer m c =
        some (.returned 1 (applyPairs m.dns pairs { config := c }).config) ↔
      ∀ key value, ConfPair.text key value ∈ pairs → c.literal key = false := by
  have hdoc := (hanswer.document hlen).trans hbody
  have hfree : pairs.all (FreesNoLiteral c) = true ↔
      ∀ key value, ConfPair.text key value ∈ pairs → c.literal key = false := by
    rw [List.all_eq_true]
    constructor
    · intro h key value hmem
      simpa [FreesNoLiteral] using h _ hmem
    · intro h pair hmem
      cases pair with
      | text key value => simpa [FreesNoLiteral] using h key value hmem
      | number key value => rfl
      | list key elements => rfl
  rw [configFromServer_flat hdoc (not_mem_serverDocument hdoc) hspells hpieces hms, ← hfree]
  split
  · next h => simp [h]
  · next h => simp [h]

/-! ## Two documents -/

theorem answers_answeredMoment (body : Text) (c : ServerConfig) :
    Answers (answeredMoment body) c ("HTTP/1.0 200 OK\r\n\r\n".toList ++ body) where
  resolves := ⟨_, rfl⟩
  connects := rfl
  closes := rfl
  chunks := by
    intro chunk hchunk
    rw [List.mem_singleton.mp hchunk]
    exact List.append_ne_nil_of_left_ne_nil (by decide) _
  response := by simp [answeredMoment]

/-- A string without escapes. -/
theorem spellsString_plain {s : Text}
    (h : ∀ c ∈ s, c ≠ '"' ∧ c ≠ '\\' ∧ c ≠ '\x00') : SpellsString s ('"' :: (s ++ ['"'])) :=
  .mk (.of_plain h)

/-- `{"authPath":"/a/"}` -/
def newAuthPath : Text := "\x7b\"authPath\":\"/a/\"\x7d".toList

theorem spells_newAuthPath :
    Spells [{ key := "authPath".toList, value := .scalar (.string "/a/".toList) }]
      newAuthPath := by
  have hkey : SpellsString "authPath".toList "\"authPath\"".toList :=
    spellsString_plain (by decide)
  have hvalue : SpellsString "/a/".toList "\"/a/\"".toList := spellsString_plain (by decide)
  have hspells : Spells [{ key := "authPath".toList, value := .scalar (.string "/a/".toList) }]
      ('\x7b' :: (("\"authPath\"".toList ++ ':' :: "\"/a/\"".toList) ++ ['\x7d'])) :=
    .of (.members (.one (.mk (.of hkey) (.of (.scalar (.string hvalue))))))
  have htext : newAuthPath =
      '\x7b' :: (("\"authPath\"".toList ++ ':' :: "\"/a/\"".toList) ++ ['\x7d']) := by
    decide
  rwa [htext]

/-- The path `config_init` has set is no memory that can be freed. -/
theorem not_applied_exactly :
    ¬∀ (m : ConfMoment) (c : ServerConfig) (response json : Text) (ms : List Member)
        (pairs : List ConfPair), Answers m c response → response.length < 8192 →
      strstrAfter CRLFCRLF (cString response) = some json → Spells ms json → pieces ms ≤ 256 →
      List.Forall₂ Means ms pairs →
      configFromServer m c =
        some (.returned 1 (applyPairs m.dns pairs { config := c }).config) := by
  intro hall
  have hbody : strstrAfter CRLFCRLF
      (cString ("HTTP/1.0 200 OK\r\n\r\n".toList ++ newAuthPath)) = some newAuthPath := by
    decide +kernel
  have hmeans : List.Forall₂ Means
      [{ key := "authPath".toList, value := .scalar (.string "/a/".toList) }]
      [.text .authPath "/a/".toList] :=
    .cons (.text (.string _) (by decide)) .nil
  have hanswer := answers_answeredMoment newAuthPath {}
  have hreturned := hall _ _ _ _ _ _ hanswer (by decide) hbody spells_newAuthPath (by decide) hmeans
  rw [configFromServer_flat ((hanswer.document (by decide)).trans hbody) (by decide)
    spells_newAuthPath (by decide) hmeans] at hreturned
  cases hreturned

/-- `{"gatewayName":"cafe", "maxClients":5, "freeIPList":["10.0.0.9"]}` -/
def cafe : Text :=
  "\x7b\"gatewayName\":\"cafe\", \"maxClients\":5, \"freeIPList\":[\"10.0.0.9\"]\x7d".toList

theorem spells_cafe :
    Spells
      [{ key := "gatewayName".toList, value := .scalar (.string "cafe".toList) },
        { key := "maxClients".toList, value := .scalar (.word "5".toList) },
        { key := "freeIPList".toList, value := .array ["10.0.0.9".toList] }] cafe := by
  have hblank : Blank [' '] := by decide
  have hnone : Blank [] := by decide
  have hname : SpellsString "gatewayName".toList "\"gatewayName\"".toList :=
    spellsString_plain (by decide)
  have hcafe : SpellsString "cafe".toList "\"cafe\"".toList := spellsString_plain (by decide)
  have hmax : SpellsString "maxClients".toList "\"maxClients\"".toList :=
    spellsString_plain (by decide)
  have hfive : Word "5".toList := by decide
  have hlist : SpellsString "freeIPList".toList "\"freeIPList\"".toList :=
    spellsString_plain (by decide)
  have hip : SpellsString "10.0.0.9".toList "\"10.0.0.9\"".toList := spellsString_plain (by decide)
  have hspells : SpellsObject
      [{ key := "gatewayName".toList, value := .scalar (.string "cafe".toList) },
        { key := "maxClients".toList, value := .scalar (.word "5".toList) },
        { key := "freeIPList".toList, value := .array ["10.0.0.9".toList] }]
      ('\x7b' :: ((("\"gatewayName\"".toList ++ ':' :: "\"cafe\"".toList) ++ ',' ::
        (([' '] ++ "\"maxClients\"".toList ++ [] ++ ':' :: "5".toList) ++ ',' ::
          ([' '] ++ "\"freeIPList\"".toList ++ [] ++ ':' ::
            '[' :: ("\"10.0.0.9\"".toList ++ [']'])))) ++ ['\x7d'])) :=
    .members (.cons (.mk (.of hname) (.of (.scalar (.string hcafe))))
      (.cons (.mk ⟨_, _, _, hblank, hmax, hnone, rfl⟩ (.of (.scalar (.word hfive))))
        (.one (.mk ⟨_, _, _, hblank, hlist, hnone, rfl⟩ (.of (.array (.one (.of hip))))))))
  have htext : cafe =
      '\x7b' :: ((("\"gatewayName\"".toList ++ ':' :: "\"cafe\"".toList) ++ ',' ::
        (([' '] ++ "\"maxClients\"".toList ++ [] ++ ':' :: "5".toList) ++ ',' ::
          ([' '] ++ "\"freeIPList\"".toList ++ [] ++ ':' ::
            '[' :: ("\"10.0.0.9\"".toList ++ [']'])))) ++ ['\x7d']) := by
    decide
  rw [htext]
  exact .of hspells

theorem applied_exactly_cafe :
    configFromServer (answeredMoment cafe) {} =
      some (.returned 1 (applyPairs (answeredMoment cafe).dns
        [.text .gatewayName "cafe".toList, .number .maxClients "5".toList,
          .list .freeIPList ["10.0.0.9".toList]] { config := {} }).config) := by
  have hbody : strstrAfter CRLFCRLF
      (cString ("HTTP/1.0 200 OK\r\n\r\n".toList ++ cafe)) = some cafe := by
    decide +kernel
  have hmeans : List.Forall₂ Means
      [{ key := "gatewayName".toList, value := .scalar (.string "cafe".toList) },
        { key := "maxClients".toList, value := .scalar (.word "5".toList) },
        { key := "freeIPList".toList, value := .array ["10.0.0.9".toList] }]
      [.text .gatewayName "cafe".toList, .number .maxClients "5".toList,
        .list .freeIPList ["10.0.0.9".toList]] :=
    .cons (.text (.string _) (by decide))
      (.cons (@Means.number _ _ (.word "5".toList) (by decide) (by decide))
        (.cons (.list (by decide) (by decide)) .nil))
  refine (applied_exactly_iff _ _ _ _ _ _ (answers_answeredMoment cafe {}) (by decide) hbody
    spells_cafe (by decide) hmeans).mpr fun key value hmem => ?_
  simp only [List.mem_cons, ConfPair.text.injEq, reduceCtorEq, List.not_mem_nil, or_false] at hmem
  rw [hmem.1]
  rfl

end WifiCat.Analysis
