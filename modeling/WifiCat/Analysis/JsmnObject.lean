import WifiCat.Analysis.JsmnTokens

/-!
# The tokens of a flat object

A text that spells a flat object is cut into one token for the object and, behind it, those
of its members in order: a key, and its value, which is one token or an array with its
elements (`jsmnParse_spells`).  The proof follows the spelling: every piece of it takes the
tokenizer from the state before it to the state behind it.
-/

set_option autoImplicit false

namespace WifiCat.Analysis

open Scan WifiCat JsonText

/-! ## Tokens and pieces -/

/-- A closed token with a kind and a text. -/
structure IsPiece (js : Text) (type : JsmnType) (text : Text) (tok : JsmnToken) : Prop where
  type : tok.type = type
  stop : tok.stop = some (tok.start + text.length)
  text : tok.text js = text

/-- The kind of a scalar's token. -/
def scalarType : Scalar → JsmnType
  | .string _ => .string
  | .word _ => .primitive

/-- The tokens of a value: an array stands before its elements, and counts them. -/
inductive ValueTokens (js : Text) : Value → List JsmnToken → Prop
  | scalar {v : Scalar} {tok : JsmnToken} (h : IsPiece js (scalarType v) v.text tok) :
      ValueTokens js (.scalar v) [tok]
  | array {es : List Text} {tok : JsmnToken} {toks : List JsmnToken} (htype : tok.type = .array)
      (hclosed : tok.isOpen = false) (hsize : tok.size = es.length)
      (h : List.Forall₂ (IsPiece js .string) es toks) : ValueTokens js (.array es) (tok :: toks)

/-- The tokens of the members, one after the other: a key, and its value. -/
inductive MembersTokens (js : Text) : List Member → List JsmnToken → Prop
  | nil : MembersTokens js [] []
  | cons {m : Member} {ms : List Member} {key : JsmnToken} {value toks : List JsmnToken}
      (hkey : IsPiece js .string m.key key) (hvalue : ValueTokens js m.value value)
      (h : MembersTokens js ms toks) : MembersTokens js (m :: ms) (key :: value ++ toks)

theorem IsPiece.closed {js text : Text} {type : JsmnType} {tok : JsmnToken}
    (h : IsPiece js type text tok) : tok.isOpen = false := by
  simp [JsmnToken.isOpen, h.stop]

theorem IsPiece.count {js text : Text} {type : JsmnType} {tok : JsmnToken}
    (h : IsPiece js type text tok) (n : ℕ) : IsPiece js type text { tok with size := n } :=
  ⟨h.type, h.stop, h.text⟩

/-- The token of the piece that stands at a position. -/
theorem isPiece_of_drop {js text rest : Text} {pos : ℕ} (h : js.drop pos = text ++ rest)
    (type : JsmnType) (n : ℕ) :
    IsPiece js type text
      { type := type, start := pos, stop := some (pos + text.length), size := n } := by
  refine ⟨rfl, rfl, ?_⟩
  simp [JsmnToken.text, h]

theorem closed_of_pieces {js : Text} {type : JsmnType} {es : List Text} {toks : List JsmnToken}
    (h : List.Forall₂ (IsPiece js type) es toks) : ∀ tok ∈ toks, tok.isOpen = false := by
  induction h with
  | nil => simp
  | cons hpiece _ ih =>
    intro tok htok
    rcases List.mem_cons.mp htok with rfl | htok
    · exact hpiece.closed
    · exact ih tok htok

theorem ValueTokens.closed {js : Text} {v : Value} {toks : List JsmnToken}
    (h : ValueTokens js v toks) : ∀ tok ∈ toks, tok.isOpen = false := by
  cases h with
  | scalar h => simpa using h.closed
  | array htype hclosed hsize h =>
    intro tok htok
    rcases List.mem_cons.mp htok with rfl | htok
    · exact hclosed
    · exact closed_of_pieces h tok htok

theorem MembersTokens.closed {js : Text} {ms : List Member} {toks : List JsmnToken}
    (h : MembersTokens js ms toks) : ∀ tok ∈ toks, tok.isOpen = false := by
  induction h with
  | nil => simp
  | cons hkey hvalue _ ih =>
    intro tok htok
    rcases List.mem_append.mp htok with htok | htok
    · rcases List.mem_cons.mp htok with rfl | htok
      · exact hkey.closed
      · exact hvalue.closed tok htok
    · exact ih tok htok

theorem MembersTokens.append {js : Text} {ms ms' : List Member} {toks toks' : List JsmnToken}
    (h : MembersTokens js ms toks) (h' : MembersTokens js ms' toks') :
    MembersTokens js (ms ++ ms') (toks ++ toks') := by
  induction h with
  | nil => exact h'
  | cons hkey hvalue _ ih =>
    rw [List.append_assoc]
    exact .cons hkey hvalue ih

theorem ValueTokens.length_eq {js : Text} {v : Value} {toks : List JsmnToken}
    (h : ValueTokens js v toks) : toks.length = v.pieces := by
  cases h with
  | scalar h => rfl
  | array htype hclosed hsize h => rw [List.length_cons, ← h.length_eq, Value.pieces]

/-- With the object's own token, there are as many tokens as pieces. -/
theorem MembersTokens.length_add_one {js : Text} {ms : List Member} {toks : List JsmnToken}
    (h : MembersTokens js ms toks) : toks.length + 1 = pieces ms := by
  induction h with
  | nil => rfl
  | cons hkey hvalue _ ih =>
    rw [pieces_cons, ← ih, ← hvalue.length_eq]
    simp only [List.length_append, List.length_cons]
    omega

/-! ## Characters -/

theorem ne_of_isWordChar {c d : Char} (hc : isWordChar c = true) (hd : isWordChar d = false) :
    c ≠ d := by
  rintro rfl
  rw [hc] at hd
  cases hd

theorem isWordChar_printable {c : Char} (hc : isWordChar c = true) :
    endsPrimitive c = false ∧ ¬(c.toNat < 32 ∨ 127 ≤ c.toNat) := by
  constructor
  · have h : ∀ d, isWordChar d = false → (c == d) = false := fun d hd =>
      beq_eq_false_iff_ne.mpr (ne_of_isWordChar hc hd)
    simp only [endsPrimitive, h ':' rfl, h '\t' rfl, h '\r' rfl, h '\n' rfl, h ' ' rfl,
      h ',' rfl, h ']' rfl, h '}' rfl, Bool.or_self]
  · delta isWordChar Char.isAlphanum Char.isAlpha Char.isUpper Char.isLower Char.isDigit at hc
    simp only [Bool.or_eq_true, Bool.and_eq_true, decide_eq_true_eq, beq_iff_eq, ge_iff_le,
      UInt32.le_iff_toNat_le] at hc
    change (((((65 ≤ c.toNat ∧ c.toNat ≤ 90) ∨ (97 ≤ c.toNat ∧ c.toNat ≤ 122)) ∨
      (48 ≤ c.toNat ∧ c.toNat ≤ 57)) ∨ c = '-') ∨ c = '+') ∨ c = '.' at hc
    rcases hc with ((((h | h) | h) | rfl) | rfl) | rfl
    · omega
    · omega
    · omega
    · decide
    · decide
    · decide

/-- What follows ends a primitive. -/
def Delimited (rest : Text) : Prop := ∃ c s, rest = c :: s ∧ endsPrimitive c = true

theorem delimited_blank {b rest : Text} (hb : Blank b) (h : Delimited rest) :
    Delimited (b ++ rest) := by
  cases b with
  | nil => exact h
  | cons c b =>
    refine ⟨c, b ++ rest, rfl, ?_⟩
    have hc := hb c List.mem_cons_self
    simp only [isBlank, Bool.or_eq_true, beq_iff_eq] at hc
    rcases hc with ((rfl | rfl) | rfl) | rfl <;> rfl

/-- A primitive ends before the first character that is not its own. -/
theorem jsmnPrimitive_word {w rest : Text} (hw : ∀ c ∈ w, isWordChar c = true)
    (h : Delimited rest) : jsmnPrimitive (w ++ rest) = .ok w.length := by
  induction w with
  | nil =>
    obtain ⟨c, s, rfl, hc⟩ := h
    simp [jsmnPrimitive, hc]
  | cons c w ih =>
    obtain ⟨hend, hrange⟩ := isWordChar_printable (hw c List.mem_cons_self)
    rw [List.cons_append, jsmnPrimitive, if_neg (by simp [hend]), if_neg (by simpa using hrange),
      ih fun d hd => hw d (List.mem_cons_of_mem _ hd)]
    rfl

/-- A string ends at its quote. -/
theorem jsmnString_body {body : Text} (h : StringBody body) (rest : Text) :
    jsmnString 0 (body ++ '"' :: rest) = .ok body.length := by
  induction h with
  | nil => simp [jsmnString]
  | plain _ hback _ _ ih => simp [jsmnString, hback, ih, Except.map]
  | @escape c s hc _ ih =>
    have hmem : c ∈ ['"', '/', '\\', 'b', 'f', 'r', 'n', 't'] := hc
    rw [List.cons_append, List.cons_append, jsmnString, if_pos hmem, ih]
    rfl
  | unicode ha hb hc hd _ ih =>
    simp [jsmnString, ha, hb, hc, hd, ih, Except.map]

/-! ## Moving over a piece -/

/-- The tokenizer from a position of the text on. -/
def jsmnAt (numTokens : ℕ) (js : Text) (pos : ℕ) (p : JsmnParser) : Except JsmnErr JsmnParser :=
  jsmnFrom numTokens pos (js.drop pos) p

theorem drop_of_drop {js a rest : Text} {pos : ℕ} (h : js.drop pos = a ++ rest) :
    js.drop (pos + a.length) = rest := by
  rw [← List.drop_drop, h, List.drop_left]

section Move

variable {numTokens pos n : ℕ} {js rest text : Text} {c : Char} {p p' : JsmnParser}

/-- One round takes the character it stands at, and more. -/
theorem jsmnAt_step (h : js.drop pos = c :: rest)
    (hstep : jsmnStep numTokens pos c rest p = .ok (n, p')) :
    jsmnAt numTokens js pos p = jsmnAt numTokens js (pos + 1 + n) p' := by
  rw [jsmnAt, h, jsmnFrom_cons hstep, jsmnAt, ← List.drop_drop, ← List.drop_drop, h]
  rfl

theorem jsmnAt_end (h : js.drop pos = []) : jsmnAt numTokens js pos p = .ok p := by
  rw [jsmnAt, h, jsmnFrom_nil]

theorem jsmnAt_blank {b : Text} (hb : Blank b) (h : js.drop pos = b ++ rest) :
    jsmnAt numTokens js pos p = jsmnAt numTokens js (pos + b.length) p := by
  induction b generalizing pos with
  | nil => rfl
  | cons c b ih =>
    have hc := hb c List.mem_cons_self
    simp only [isBlank, Bool.or_eq_true, beq_iff_eq] at hc
    have hstep : jsmnStep numTokens pos c (b ++ rest) p = .ok (0, p) := by
      rcases hc with ((rfl | rfl) | rfl) | rfl <;> simp [jsmnStep]
    have hrest : js.drop (pos + 1) = b ++ rest := drop_of_drop (a := [c]) h
    rw [jsmnAt_step h hstep, ih (fun d hd => hb d (List.mem_cons_of_mem _ hd)) hrest,
      List.length_cons, Nat.add_zero, Nat.add_assoc, Nat.add_comm 1]

theorem modify_append_cons {α : Type} (before after : List α) (a : α) (f : α → α) :
    (before ++ a :: after).modify before.length f = before ++ f a :: after := by
  induction before with
  | nil => rfl
  | cons b before ih => simpa using ih

/-- A new token is counted in the superior one. -/
theorem add_at {before after : List JsmnToken} {sup tok : JsmnToken}
    (hroom : before.length + after.length + 1 < numTokens) :
    JsmnParser.add numTokens tok
        { tokens := before ++ sup :: after, toksuper := some before.length } =
      .ok { tokens := before ++ { sup with size := sup.size + 1 } :: (after ++ [tok])
            toksuper := some before.length } := by
  have hlen : (before ++ sup :: after).length < numTokens := by
    simp only [List.length_append, List.length_cons]
    omega
  simp only [JsmnParser.add, if_neg (Nat.not_le.mpr hlen)]
  rw [List.append_assoc, List.cons_append, modify_append_cons]

/-- The round that reads a string. -/
theorem jsmnStep_string {before after : List JsmnToken} {sup : JsmnToken} {body : Text}
    (hroom : before.length + after.length + 1 < numTokens) (hbody : StringBody body) :
    jsmnStep numTokens pos '"' (body ++ '"' :: rest)
        { tokens := before ++ sup :: after, toksuper := some before.length } =
      .ok (body.length + 1,
        { tokens := before ++ { sup with size := sup.size + 1 } :: (after ++
            [{ type := .string, start := pos + 1, stop := some (pos + 1 + body.length), size := 0 }])
          toksuper := some before.length }) := by
  simp [jsmnStep, jsmnString_body hbody, add_at hroom]

/-- The round that reads a primitive. -/
theorem jsmnStep_word {before after : List JsmnToken} {sup : JsmnToken} {w : Text}
    (hroom : before.length + after.length + 1 < numTokens)
    (hw : ∀ d ∈ c :: w, isWordChar d = true) (hdelim : Delimited rest) :
    jsmnStep numTokens pos c (w ++ rest)
        { tokens := before ++ sup :: after, toksuper := some before.length } =
      .ok (w.length,
        { tokens := before ++ { sup with size := sup.size + 1 } :: (after ++
            [{ type := .primitive, start := pos, stop := some (pos + (w.length + 1)), size := 0 }])
          toksuper := some before.length }) := by
  have hc : ∀ d, isWordChar d = false → c ≠ d := fun d hd =>
    ne_of_isWordChar (hw c List.mem_cons_self) hd
  have hread := jsmnPrimitive_word hw hdelim
  rw [List.cons_append] at hread
  simp only [jsmnStep, hc '\x7b' rfl, hc '[' rfl, hc '\x7d' rfl, hc ']' rfl, hc '"' rfl, hc '\t' rfl,
    hc '\r' rfl, hc '\n' rfl, hc ' ' rfl, hc ':' rfl, hc ',' rfl, or_self, if_false, hread,
    List.length_cons, add_at hroom, Nat.add_sub_cancel]

/-- A scalar becomes a token, counted in the superior one. -/
theorem jsmnAt_scalar {before after : List JsmnToken} (sup : JsmnToken) {v : Scalar} {s : Text}
    (hroom : before.length + after.length + 1 < numTokens) (hv : Padded (SpellsScalar v) s)
    (hdelim : Delimited rest) (h : js.drop pos = s ++ rest) :
    ∃ tok, IsPiece js (scalarType v) v.text tok ∧
      jsmnAt numTokens js pos { tokens := before ++ sup :: after, toksuper := some before.length } =
        jsmnAt numTokens js (pos + s.length)
          { tokens := before ++ { sup with size := sup.size + 1 } :: (after ++ [tok])
            toksuper := some before.length } := by
  obtain ⟨l, m, r, hl, hm, hr, rfl⟩ := hv
  rw [List.append_assoc, List.append_assoc] at h
  have hm' := drop_of_drop h
  have hr' := drop_of_drop hm'
  have hsum : pos + (l ++ m ++ r).length = pos + l.length + m.length + r.length := by
    simp only [List.length_append]
    omega
  rw [jsmnAt_blank hl h, hsum]
  cases hm with
  | @string body _ hs =>
    obtain ⟨hbody⟩ := hs
    have hquote : js.drop (pos + l.length) = '"' :: (body ++ '"' :: (r ++ rest)) := by
      simpa using hm'
    refine ⟨_, isPiece_of_drop (drop_of_drop (a := ['"']) hquote) .string 0, ?_⟩
    have hlen : ('"' :: (body ++ ['"'])).length = 1 + (body.length + 1) := by
      simp
      omega
    rw [hlen, ← Nat.add_assoc] at hr' ⊢
    rw [jsmnAt_step hquote (jsmnStep_string hroom hbody), jsmnAt_blank hr hr']
    rfl
  | @word w hw =>
    obtain ⟨hne, hword⟩ := hw
    obtain ⟨c, w, rfl⟩ := List.exists_cons_of_ne_nil hne
    refine ⟨_, isPiece_of_drop hm' .primitive 0, ?_⟩
    have hend : pos + l.length + 1 + w.length = pos + l.length + (c :: w).length := by
      simp only [List.length_cons]
      omega
    rw [← hend] at hr'
    rw [jsmnAt_step hm' (jsmnStep_word hroom hword (delimited_blank hr hdelim)),
      jsmnAt_blank hr hr', hend]
    rfl

/-! ## Arrays -/

/-- The elements of an array, which is counting, become tokens behind it. -/
theorem jsmnAt_elements {before els : List JsmnToken} {arr : JsmnToken} {es : List Text}
    {s : Text} (hes : Separated (fun e => Padded (SpellsString e)) es s)
    (harr : arr.type = .array) (hroom : before.length + els.length + es.length < numTokens)
    (h : js.drop pos = s ++ ']' :: rest) :
    ∃ toks, List.Forall₂ (IsPiece js .string) es toks ∧
      jsmnAt numTokens js pos { tokens := before ++ arr :: els, toksuper := some before.length } =
        jsmnAt numTokens js (pos + s.length)
          { tokens := before ++ { arr with size := arr.size + es.length } :: (els ++ toks)
            toksuper := some before.length } := by
  induction hes generalizing pos arr els with
  | @one e s he =>
    have hscalar : Padded (SpellsScalar (.string e)) s := by
      obtain ⟨l, m, r, hl, hm, hr, rfl⟩ := he
      exact ⟨l, m, r, hl, .string hm, hr, rfl⟩
    obtain ⟨tok, htok, hrun⟩ :=
      jsmnAt_scalar arr (by simpa using hroom) hscalar ⟨']', rest, rfl, rfl⟩ h
    exact ⟨[tok], .cons htok .nil, hrun⟩
  | @cons e es s s' he _ ih =>
    have hscalar : Padded (SpellsScalar (.string e)) s := by
      obtain ⟨l, m, r, hl, hm, hr, rfl⟩ := he
      exact ⟨l, m, r, hl, .string hm, hr, rfl⟩
    rw [List.append_assoc, List.cons_append] at h
    rw [List.length_cons] at hroom
    have hnext : before.length + els.length + 1 < numTokens := by omega
    obtain ⟨tok, htok, hrun⟩ := jsmnAt_scalar arr hnext hscalar ⟨',', _, rfl, rfl⟩ h
    have hcomma : js.drop (pos + s.length) = ',' :: (s' ++ ']' :: rest) := drop_of_drop h
    have hbehind : js.drop (pos + s.length + 1 + 0) = s' ++ ']' :: rest :=
      drop_of_drop (a := [',']) hcomma
    have hcounted : ({ arr with size := arr.size + 1 } : JsmnToken).type = .array := harr
    have hroom' : before.length + (els ++ [tok]).length + es.length < numTokens := by
      simp only [List.length_append, List.length_singleton]
      omega
    obtain ⟨toks, htoks, hrest⟩ := ih hcounted hroom' hbehind
    refine ⟨tok :: toks, .cons htok htoks, ?_⟩
    have hstep : jsmnStep numTokens (pos + s.length) ',' (s' ++ ']' :: rest)
        { tokens := before ++ { arr with size := arr.size + 1 } :: (els ++ [tok])
          toksuper := some before.length } =
        .ok (0, { tokens := before ++ { arr with size := arr.size + 1 } :: (els ++ [tok])
                  toksuper := some before.length }) := by
      simp [jsmnStep, JsmnParser.comma, JsmnToken.isContainer, harr]
    rw [hrun, jsmnAt_step hcomma hstep, hrest]
    congr 1
    · simp
      omega
    · simp
      omega

/-- The round that begins an array, counted in the superior token. -/
theorem jsmnStep_array {before : List JsmnToken} (sup : JsmnToken)
    (hroom : before.length + 1 < numTokens) :
    jsmnStep numTokens pos '[' rest { tokens := before ++ [sup], toksuper := some before.length } =
      .ok (0,
        { tokens := (before ++ [{ sup with size := sup.size + 1 }]) ++
            [{ type := .array, start := pos, stop := none, size := 0 }]
          toksuper := some (before ++ [{ sup with size := sup.size + 1 }]).length }) := by
  have hadd := @add_at _ before [] sup { type := .array, start := pos, stop := none, size := 0 }
    hroom
  have hne : ('[' : Char) ≠ '\x7b' := by decide
  simp only [jsmnStep, or_true, if_true, hne, if_false, hadd]
  simp

/-- The round that ends a container closes the last open token. -/
theorem jsmnStep_close {before after : List JsmnToken} {tok : JsmnToken} {super : Option ℕ}
    (hc : c = '\x7d' ∨ c = ']') (htype : tok.type = if c = '\x7d' then .object else .array)
    (hopen : tok.isOpen = true) (hafter : ∀ t ∈ after, t.isOpen = false) :
    jsmnStep numTokens pos c rest { tokens := before ++ tok :: after, toksuper := super } =
      .ok (0,
        { tokens := before ++ { tok with stop := some (pos + 1) } :: after
          toksuper := lastWhere JsmnToken.isOpen
            (before ++ { tok with stop := some (pos + 1) } :: after) }) := by
  have hclose : JsmnParser.close tok.type pos
      { tokens := before ++ tok :: after, toksuper := super } =
      .ok { tokens := before ++ { tok with stop := some (pos + 1) } :: after
            toksuper := lastWhere JsmnToken.isOpen
              (before ++ { tok with stop := some (pos + 1) } :: after) } := by
    simp only [JsmnParser.close, lastWhere_append hopen hafter, modify_append_cons]
    simp
  have hno : ¬(c = '\x7b' ∨ c = '[') := by rcases hc with rfl | rfl <;> decide
  rw [jsmnStep, if_neg hno, if_pos hc, ← htype, hclose]

/-- What stands between the brackets of an array. -/
theorem jsmnAt_between {before : List JsmnToken} {arr : JsmnToken} {es : List Text} {s : Text}
    (harr : arr.type = .array) (hzero : arr.size = 0)
    (hroom : before.length + es.length < numTokens)
    (hs : Blank s ∧ es = [] ∨ Separated (fun e => Padded (SpellsString e)) es s)
    (h : js.drop pos = s ++ ']' :: rest) :
    ∃ toks, List.Forall₂ (IsPiece js .string) es toks ∧
      jsmnAt numTokens js pos { tokens := before ++ [arr], toksuper := some before.length } =
        jsmnAt numTokens js (pos + s.length)
          { tokens := before ++ { arr with size := es.length } :: toks
            toksuper := some before.length } := by
  rcases hs with ⟨hblank, rfl⟩ | hes
  · refine ⟨[], .nil, ?_⟩
    rw [jsmnAt_blank hblank h, List.length_nil, ← hzero]
  · obtain ⟨toks, htoks, hrun⟩ := @jsmnAt_elements _ _ _ _ before [] arr es s hes harr
      (by simpa using hroom) h
    rw [hzero, Nat.zero_add] at hrun
    exact ⟨toks, htoks, hrun⟩

/-- An array becomes a token with its elements behind it, counted in the superior one. -/
theorem jsmnAt_array {before : List JsmnToken} (sup : JsmnToken) {es : List Text} {s : Text}
    (hroom : before.length + 1 + es.length < numTokens) (hs : SpellsValue (.array es) s)
    (h : js.drop pos = s ++ rest) :
    ∃ tok toks, ValueTokens js (.array es) (tok :: toks) ∧
      jsmnAt numTokens js pos { tokens := before ++ [sup], toksuper := some before.length } =
        jsmnAt numTokens js (pos + s.length)
          { tokens := before ++ { sup with size := sup.size + 1 } :: tok :: toks
            toksuper := lastWhere JsmnToken.isOpen
              (before ++ { sup with size := sup.size + 1 } :: tok :: toks) } := by
  obtain ⟨inner, rfl, hinner⟩ : ∃ inner, s = '[' :: (inner ++ [']']) ∧
      (Blank inner ∧ es = [] ∨ Separated (fun e => Padded (SpellsString e)) es inner) := by
    cases hs with
    | empty hb => exact ⟨_, rfl, .inl ⟨hb, rfl⟩⟩
    | array hes => exact ⟨_, rfl, .inr hes⟩
  let sup' : JsmnToken := { sup with size := sup.size + 1 }
  let arr : JsmnToken := { type := .array, start := pos, stop := none, size := 0 }
  have hopening : js.drop pos = '[' :: (inner ++ ']' :: rest) := by simpa using h
  have hbehind : js.drop (pos + 1 + 0) = inner ++ ']' :: rest := drop_of_drop (a := ['[']) hopening
  have hclosing : js.drop (pos + 1 + 0 + inner.length) = ']' :: rest := drop_of_drop hbehind
  have hlen : (before ++ [sup']).length = before.length + 1 := by simp
  obtain ⟨toks, htoks, hrun⟩ := @jsmnAt_between _ _ _ _ (before ++ [sup']) arr _ _ rfl rfl
    (by rw [hlen]; exact hroom) hinner hbehind
  let arr' : JsmnToken := { arr with size := es.length, stop := some (pos + 1 + 0 + inner.length + 1) }
  refine ⟨arr', toks, .array rfl rfl rfl htoks, ?_⟩
  rw [jsmnAt_step hopening (jsmnStep_array sup (by omega)), hrun,
    jsmnAt_step hclosing (jsmnStep_close (.inr rfl) rfl rfl (closed_of_pieces htoks))]
  congr 1
  · simp only [List.length_cons, List.length_append, List.length_nil]
    omega
  · simp only [List.append_assoc, List.cons_append, List.nil_append]
    rfl

/-! ## Members -/

/-- The state within an object: it is open, and everything behind it is closed. -/
structure InObject (obj : JsmnToken) (done : List JsmnToken) : Prop where
  type : obj.type = .object
  isOpen : obj.isOpen = true
  closed : ∀ tok ∈ done, tok.isOpen = false

theorem InObject.append {obj : JsmnToken} {done toks : List JsmnToken} (h : InObject obj done)
    (htoks : ∀ tok ∈ toks, tok.isOpen = false) : InObject obj (done ++ toks) := by
  refine ⟨h.type, h.isOpen, fun tok htok => ?_⟩
  rcases List.mem_append.mp htok with htok | htok
  · exact h.closed tok htok
  · exact htoks tok htok

theorem InObject.count {obj : JsmnToken} {done : List JsmnToken} (h : InObject obj done) (n : ℕ) :
    InObject { obj with size := n } done := ⟨h.type, h.isOpen, h.closed⟩

/-- Within an object whose superior token is itself, or is no container, a comma goes back to
the object. -/
theorem InObject.comma {obj : JsmnToken} {done : List JsmnToken} {super : Option ℕ}
    (h : InObject obj done)
    (hsuper : super = some 0 ∨ ((super.bind ((obj :: done)[·]?)).any JsmnToken.isContainer) = false) :
    JsmnParser.comma { tokens := obj :: done, toksuper := super } =
      { tokens := obj :: done, toksuper := some 0 } := by
  have hcontainer : obj.isContainer = true := by simp [JsmnToken.isContainer, h.type]
  rcases hsuper with rfl | hno
  · simp [JsmnParser.comma, hcontainer]
  · have hlast : lastWhere (fun t => t.isContainer && t.isOpen) (obj :: done) = some 0 :=
      @lastWhere_append _ [] done obj (by simp [hcontainer, h.isOpen])
        (fun t ht => by simp [h.closed t ht])
    rw [JsmnParser.comma, if_neg (by simpa using hno)]
    simp only [hlast]

/-- The value of a member: behind it, a comma or the closing bracket goes on with the
object. -/
theorem jsmnAt_value {obj key : JsmnToken} {done : List JsmnToken} {v : Value} {s : Text}
    (hobj : InObject obj done) (hkey : IsPiece js .string text key)
    (hroom : done.length + 2 + v.pieces ≤ numTokens) (hv : Padded (SpellsValue v) s)
    (hdelim : Delimited rest) (h : js.drop pos = s ++ rest) :
    ∃ toks super, ValueTokens js v toks ∧
      (super = some 0 ∨ ((super.bind
        ((obj :: done ++ { key with size := key.size + 1 } :: toks)[·]?)).any
          JsmnToken.isContainer) = false) ∧
      jsmnAt numTokens js pos
          { tokens := obj :: done ++ [key], toksuper := some (obj :: done).length } =
        jsmnAt numTokens js (pos + s.length)
          { tokens := obj :: done ++ { key with size := key.size + 1 } :: toks
            toksuper := super } := by
  obtain ⟨l, m, r, hl, hm, hr, rfl⟩ := hv
  cases v with
  | scalar v =>
    obtain ⟨hscalar⟩ := hm
    have hroom' : (obj :: done).length + ([] : List JsmnToken).length + 1 < numTokens := by
      simp only [Value.pieces] at hroom
      simp only [List.length_cons, List.length_nil]
      omega
    obtain ⟨tok, htok, hrun⟩ := jsmnAt_scalar key hroom' ⟨l, m, r, hl, hscalar, hr, rfl⟩ hdelim h
    refine ⟨[tok], some (obj :: done).length, .scalar htok, .inr ?_, hrun⟩
    have hnot : ({ key with size := key.size + 1 } : JsmnToken).isContainer = false := by
      simp [JsmnToken.isContainer, hkey.type]
    rw [Option.bind_some, List.getElem?_append_right le_rfl, Nat.sub_self]
    exact hnot
  | array es =>
    have hroom' : (obj :: done).length + 1 + es.length < numTokens := by
      simp only [Value.pieces] at hroom
      simp only [List.length_cons]
      omega
    rw [List.append_assoc, List.append_assoc] at h
    have hm' := drop_of_drop h
    have hr' := drop_of_drop hm'
    obtain ⟨tok, toks, htoks, hrun⟩ := jsmnAt_array key hroom' hm hm'
    have hsuper : lastWhere JsmnToken.isOpen
        (obj :: done ++ { key with size := key.size + 1 } :: tok :: toks) = some 0 := by
      refine @lastWhere_append _ [] _ obj hobj.isOpen fun t ht => ?_
      rcases List.mem_append.mp ht with ht | ht
      · exact hobj.closed t ht
      · rcases List.mem_cons.mp ht with rfl | ht
        · exact (hkey.count _).closed
        · exact htoks.closed t ht
    refine ⟨tok :: toks, _, htoks, .inl hsuper, ?_⟩
    rw [jsmnAt_blank hl h, hrun, jsmnAt_blank hr hr']
    congr 1
    simp only [List.length_append]
    omega

/-- A member within an object becomes its tokens. -/
theorem jsmnAt_member {obj : JsmnToken} {done : List JsmnToken} {m : Member} {s : Text}
    (hobj : InObject obj done) (hroom : done.length + 2 + m.value.pieces ≤ numTokens)
    (hs : SpellsMember m s) (hdelim : Delimited rest) (h : js.drop pos = s ++ rest) :
    ∃ toks super, MembersTokens js [m] toks ∧
      (super = some 0 ∨ ((super.bind
        (({ obj with size := obj.size + 1 } :: (done ++ toks))[·]?)).any
          JsmnToken.isContainer) = false) ∧
      jsmnAt numTokens js pos { tokens := obj :: done, toksuper := some 0 } =
        jsmnAt numTokens js (pos + s.length)
          { tokens := { obj with size := obj.size + 1 } :: (done ++ toks), toksuper := super } := by
  obtain ⟨hk, hv⟩ := hs
  next k v =>
  rw [List.append_assoc, List.cons_append] at h
  have hkey : Padded (SpellsScalar (.string m.key)) k := by
    obtain ⟨l, m, r, hl, hm, hr, rfl⟩ := hk
    exact ⟨l, m, r, hl, .string hm, hr, rfl⟩
  have hcolon := drop_of_drop h
  have hvalue : js.drop (pos + k.length + 1 + 0) = v ++ rest := drop_of_drop (a := [':']) hcolon
  have hkeyRoom : ([] : List JsmnToken).length + done.length + 1 < numTokens := by
    simp only [List.length_nil]
    omega
  obtain ⟨key, hpiece, hrun⟩ := jsmnAt_scalar obj hkeyRoom hkey ⟨':', _, rfl, rfl⟩ h
  obtain ⟨toks, super, htoks, hsuper, hrest⟩ :=
    jsmnAt_value (hobj.count (obj.size + 1)) hpiece hroom hv hdelim hvalue
  have hstep : jsmnStep numTokens (pos + k.length) ':' (v ++ rest)
      { tokens := { obj with size := obj.size + 1 } :: (done ++ [key]), toksuper := some 0 } =
      .ok (0,
        { tokens := { obj with size := obj.size + 1 } :: (done ++ [key])
          toksuper := some (obj :: done).length }) := by
    simp [jsmnStep]
  have htokens : MembersTokens js [m] ({ key with size := key.size + 1 } :: toks ++ []) :=
    .cons (hpiece.count _) htoks .nil
  rw [List.append_nil] at htokens
  refine ⟨_, super, htokens, hsuper, ?_⟩
  simp only [List.nil_append, List.length_nil] at hrun
  rw [hrun, jsmnAt_step hcolon hstep]
  refine hrest.trans ?_
  congr 1
  simp only [List.length_append, List.length_cons]
  omega

/-- The members of an object become their tokens. -/
theorem jsmnAt_members {obj : JsmnToken} {done : List JsmnToken} {ms : List Member} {s : Text}
    (hobj : InObject obj done) (hroom : done.length + pieces ms ≤ numTokens)
    (hs : Separated SpellsMember ms s) (h : js.drop pos = s ++ '\x7d' :: rest) :
    ∃ n toks super, MembersTokens js ms toks ∧
      jsmnAt numTokens js pos { tokens := obj :: done, toksuper := some 0 } =
        jsmnAt numTokens js (pos + s.length)
          { tokens := { obj with size := n } :: (done ++ toks), toksuper := super } := by
  induction hs generalizing pos obj done with
  | @one m s hm =>
    have hroom' : done.length + 2 + m.value.pieces ≤ numTokens := by
      simp only [pieces_cons, pieces_nil] at hroom
      omega
    obtain ⟨toks, super, htoks, -, hrun⟩ :=
      jsmnAt_member hobj hroom' hm ⟨'\x7d', rest, rfl, rfl⟩ h
    exact ⟨_, toks, super, htoks, hrun⟩
  | @cons m ms s s' hm _ ih =>
    rw [List.append_assoc, List.cons_append] at h
    rw [pieces_cons] at hroom
    have hroom' : done.length + 2 + m.value.pieces ≤ numTokens := by
      have : 0 < pieces ms := Nat.succ_pos _
      omega
    obtain ⟨toks, super, htoks, hsuper, hrun⟩ :=
      jsmnAt_member hobj hroom' hm ⟨',', _, rfl, rfl⟩ h
    have hcomma := drop_of_drop h
    have hbehind : js.drop (pos + s.length + 1 + 0) = s' ++ '\x7d' :: rest :=
      drop_of_drop (a := [',']) hcomma
    have hobj' := (hobj.append htoks.closed).count (obj.size + 1)
    have hstep : jsmnStep numTokens (pos + s.length) ',' (s' ++ '\x7d' :: rest)
        { tokens := { obj with size := obj.size + 1 } :: (done ++ toks), toksuper := super } =
        .ok (0, { tokens := { obj with size := obj.size + 1 } :: (done ++ toks)
                  toksuper := some 0 }) := by
      rw [← hobj'.comma hsuper]
      simp [jsmnStep]
    have hlen := htoks.length_add_one
    rw [pieces_cons, pieces_nil] at hlen
    have hroom'' : (done ++ toks).length + pieces ms ≤ numTokens := by
      rw [List.length_append]
      omega
    obtain ⟨n, toks', super', htoks', hrest⟩ := ih hobj' hroom'' hbehind
    refine ⟨n, toks ++ toks', super', htoks.append htoks', ?_⟩
    rw [hrun, jsmnAt_step hcomma hstep, hrest, List.append_assoc]
    congr 1
    simp only [List.length_append, List.length_cons]
    omega

end Move

/-! ## The whole text -/

/-- INTERNAL: A text that spells a flat object has the object's token, and behind it those of
the members in order.
SOURCE: jsmn.c:153-300 -/
theorem jsmnParse_spells {numTokens : ℕ} {js : Text} {ms : List Member} (hs : Spells ms js)
    (hroom : pieces ms ≤ numTokens) :
    ∃ obj toks, jsmnParse numTokens js = .ok (obj :: toks) ∧ obj.type = .object ∧
      MembersTokens js ms toks := by
  obtain ⟨l, m, r, hl, hm, hr, rfl⟩ := hs
  obtain ⟨inner, rfl, hinner⟩ : ∃ inner, m = '\x7b' :: (inner ++ ['\x7d']) ∧
      (Blank inner ∧ ms = [] ∨ Separated SpellsMember ms inner) := by
    cases hm with
    | empty hb => exact ⟨_, rfl, .inl ⟨hb, rfl⟩⟩
    | members hs => exact ⟨_, rfl, .inr hs⟩
  generalize hjs : l ++ '\x7b' :: (inner ++ ['\x7d']) ++ r = js
  let obj : JsmnToken := { type := .object, start := 0 + l.length, stop := none, size := 0 }
  have hobj : InObject obj [] := ⟨rfl, rfl, by simp⟩
  have hbegin : js.drop 0 = l ++ '\x7b' :: (inner ++ '\x7d' :: r) := by simp [← hjs]
  have hopening := drop_of_drop hbegin
  have hbehind : js.drop (0 + l.length + 1 + 0) = inner ++ '\x7d' :: r :=
    drop_of_drop (a := ['\x7b']) hopening
  have hclosing := drop_of_drop hbehind
  have hend : js.drop (0 + l.length + 1 + 0 + inner.length + 1 + 0) = r ++ [] := by
    rw [List.append_nil]
    exact drop_of_drop (a := ['\x7d']) hclosing
  have hpieces : 0 < pieces ms := Nat.succ_pos _
  have hopen : jsmnStep numTokens (0 + l.length) '\x7b' (inner ++ '\x7d' :: r) {} =
      .ok (0, { tokens := [obj], toksuper := some 0 }) := by
    have hzero : ¬numTokens ≤ ([] : List JsmnToken).length := by
      simp only [List.length_nil]
      omega
    simp only [jsmnStep, JsmnParser.add, if_neg hzero, true_or, if_true]
    rfl
  obtain ⟨n, toks, super, htoks, hrun⟩ : ∃ n toks super, MembersTokens js ms toks ∧
      jsmnAt numTokens js (0 + l.length + 1 + 0) { tokens := [obj], toksuper := some 0 } =
        jsmnAt numTokens js (0 + l.length + 1 + 0 + inner.length)
          { tokens := { obj with size := n } :: toks, toksuper := super } := by
    rcases hinner with ⟨hblank, rfl⟩ | hms
    · exact ⟨0, [], some 0, .nil, jsmnAt_blank hblank hbehind⟩
    · exact jsmnAt_members hobj (by simpa using hroom) hms hbehind
  let obj' : JsmnToken :=
    { obj with size := n, stop := some (0 + l.length + 1 + 0 + inner.length + 1) }
  have hclose : jsmnStep numTokens (0 + l.length + 1 + 0 + inner.length) '\x7d' r
      { tokens := { obj with size := n } :: toks, toksuper := super } =
      .ok (0, { tokens := obj' :: toks
                toksuper := lastWhere JsmnToken.isOpen (obj' :: toks) }) :=
    @jsmnStep_close _ _ _ _ [] toks _ super (.inl rfl) rfl rfl htoks.closed
  have hparse : jsmnFrom numTokens 0 js {} = jsmnAt numTokens js 0 {} := rfl
  have hclosed : (obj' :: toks).any JsmnToken.isOpen = false :=
    List.any_eq_false.mpr fun tok htok => by
      rcases List.mem_cons.mp htok with rfl | htok
      · simp [JsmnToken.isOpen, obj']
      · simp [htoks.closed tok htok]
  refine ⟨obj', toks, ?_, rfl, htoks⟩
  rw [jsmnParse_eq, hparse, jsmnAt_blank hl hbegin, jsmnAt_step hopening hopen, hrun,
    jsmnAt_step hclosing hclose, jsmnAt_blank hr hend, jsmnAt_end (drop_of_drop hend)]
  dsimp only
  rw [if_neg (by simp [hclosed])]

end WifiCat.Analysis
