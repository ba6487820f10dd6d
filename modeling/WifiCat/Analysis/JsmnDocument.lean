import WifiCat.Analysis.JsmnObject
import WifiCat.Library.JsonTree

/-!
# The tokens of a document

The tokenizer reads documents of any depth: their tokens are the document in preorder, each with
the number of its children (`jsmnParse_document`).  The limit on the tokens decides only whether
there is a result (`jsmnParse_limit`).
-/

set_option autoImplicit false

namespace WifiCat.Analysis

open Scan WifiCat JsonText LabelTree

variable {n m pos : ℕ} {js rest : Text}

/-! ## Counting -/

/-- The tokens, of which the superior one counts one more. -/
def count (p : JsmnParser) (tokens : List JsmnToken) : List JsmnToken :=
  match p.toksuper with
  | none => tokens
  | some k => tokens.modify k fun t => { t with size := t.size + 1 }

theorem length_count (p : JsmnParser) (tokens : List JsmnToken) :
    (count p tokens).length = tokens.length := by
  unfold count
  cases p.toksuper with
  | none => rfl
  | some k => exact List.length_modify ..

theorem add_eq_if (p : JsmnParser) (tok : JsmnToken) :
    p.add n tok = if n ≤ p.tokens.length then .error .nomem
      else .ok { p with tokens := count p (p.tokens ++ [tok]) } := rfl

/-- The superior token exists. -/
def HasSuper (p : JsmnParser) : Prop := ∀ k, p.toksuper = some k → k < p.tokens.length

theorem modify_append_of_lt {α : Type} (xs ys : List α) (f : α → α) {k : ℕ} (h : k < xs.length) :
    (xs ++ ys).modify k f = xs.modify k f ++ ys := by
  induction xs generalizing k with
  | nil => cases h
  | cons x xs ih =>
    cases k with
    | zero => rfl
    | succ k =>
      rw [List.cons_append, List.modify_succ_cons, List.modify_succ_cons,
        ih (Nat.lt_of_succ_lt_succ h), List.cons_append]

/-- INTERNAL: a new token is counted in the superior one, and stands behind the others.
SOURCE: jsmn.c:8-21, 171-178 -/
theorem add_eq {p : JsmnParser} (hsuper : HasSuper p) (hroom : p.tokens.length < n)
    (tok : JsmnToken) : p.add n tok = .ok { p with tokens := count p p.tokens ++ [tok] } := by
  have hcount : count p (p.tokens ++ [tok]) = count p p.tokens ++ [tok] := by
    unfold count
    cases htoksuper : p.toksuper with
    | none => rfl
    | some k => exact modify_append_of_lt _ [tok] _ (hsuper k htoksuper)
  rw [add_eq_if, if_neg (Nat.not_le.mpr hroom), hcount]

theorem count_at {before after : List JsmnToken} {sup : JsmnToken} :
    count { tokens := before ++ sup :: after, toksuper := some before.length }
        (before ++ sup :: after) =
      before ++ { sup with size := sup.size + 1 } :: after :=
  modify_append_cons ..

/-! ## The limit -/

section Limit

variable {k : ℕ} {c : Char} {s : Text} {p q : JsmnParser} {tok : JsmnToken}

/-- INTERNAL: with another limit, a token is added, or there is no room for it.
SOURCE: jsmn.c:8-21 -/
theorem add_limit (h : p.add m tok = .ok q) :
    p.tokens.length < q.tokens.length ∧
      p.add n tok = if q.tokens.length ≤ n then .ok q else .error .nomem := by
  rw [add_eq_if] at h ⊢
  split at h
  · cases h
  · cases h
    dsimp only
    rw [length_count, List.length_append, List.length_singleton]
    refine ⟨Nat.lt_succ_self _, ?_⟩
    by_cases hn : n ≤ p.tokens.length
    · rw [if_pos hn, if_neg (by omega)]
    · rw [if_neg hn, if_pos (by omega)]

theorem length_of_close {type : JsmnType} (h : p.close type pos = .ok q) :
    q.tokens.length = p.tokens.length := by
  unfold JsmnParser.close at h
  split at h
  · cases h
  · split at h
    · cases h
    · cases h
      exact List.length_modify ..

theorem tokens_comma (p : JsmnParser) : p.comma.tokens = p.tokens := by
  unfold JsmnParser.comma
  split
  · rfl
  · split <;> rfl

/-- What a round makes of the parser with a new token. -/
def roundOf (f : JsmnParser → ℕ × JsmnParser) :
    Except JsmnErr JsmnParser → Except JsmnErr (ℕ × JsmnParser)
  | .error e => .error e
  | .ok p => .ok (f p)

theorem round_limit {f : JsmnParser → ℕ × JsmnParser}
    (hf : ∀ r, (f r).2.tokens.length = r.tokens.length)
    (h : roundOf f (p.add m tok) = .ok (k, q)) :
    p.tokens.length ≤ q.tokens.length ∧ (p.tokens.length ≤ n →
      roundOf f (p.add n tok) = if q.tokens.length ≤ n then .ok (k, q) else .error .nomem) := by
  cases hadd : p.add m tok with
  | error e => rw [hadd] at h; cases h
  | ok r =>
    rw [hadd] at h
    have hr : f r = (k, q) := Except.ok.inj h
    obtain ⟨hlt, hlimit⟩ := add_limit (n := n) hadd
    have hlength : q.tokens.length = r.tokens.length := by rw [← hf r, hr]
    refine ⟨by omega, fun _ => ?_⟩
    rw [hlimit, hlength]
    by_cases hroom : r.tokens.length ≤ n
    · rw [if_pos hroom, if_pos hroom, ← hr]
      rfl
    · rw [if_neg hroom, if_neg hroom]
      rfl

/-- INTERNAL: with another limit, a round does the same, or there is no room for its token.
SOURCE: jsmn.c:160-290 -/
theorem jsmnStep_limit (h : jsmnStep m pos c s p = .ok (k, q)) :
    p.tokens.length ≤ q.tokens.length ∧ (p.tokens.length ≤ n →
      jsmnStep n pos c s p = if q.tokens.length ≤ n then .ok (k, q) else .error .nomem) := by
  unfold jsmnStep at h ⊢
  by_cases hopen : c = '\x7b' ∨ c = '['
  · rw [if_pos hopen] at h ⊢
    exact round_limit (f := fun r => (0, { r with toksuper := some (r.tokens.length - 1) }))
      (fun _ => rfl) h
  rw [if_neg hopen] at h ⊢
  by_cases hclose : c = '\x7d' ∨ c = ']'
  · rw [if_pos hclose] at h ⊢
    cases hend : p.close (if c = '\x7d' then .object else .array) pos with
    | error e => rw [hend] at h; cases h
    | ok r =>
      rw [hend] at h
      cases h
      have hlength := length_of_close hend
      exact ⟨Nat.le_of_eq hlength.symm, fun hn => (if_pos (by omega)).symm⟩
  rw [if_neg hclose] at h ⊢
  by_cases hquote : c = '"'
  · rw [if_pos hquote] at h ⊢
    cases hstring : jsmnString 0 s with
    | error e => rw [hstring] at h; cases h
    | ok j =>
      rw [hstring] at h
      exact round_limit (f := fun r => (j + 1, r)) (fun _ => rfl) h
  rw [if_neg hquote] at h ⊢
  by_cases hblank : c = '\t' ∨ c = '\r' ∨ c = '\n' ∨ c = ' '
  · rw [if_pos hblank] at h ⊢
    cases h
    exact ⟨Nat.le_refl _, fun hn => (if_pos hn).symm⟩
  rw [if_neg hblank] at h ⊢
  by_cases hcolon : c = ':'
  · rw [if_pos hcolon] at h ⊢
    cases h
    exact ⟨Nat.le_refl _, fun hn => (if_pos hn).symm⟩
  rw [if_neg hcolon] at h ⊢
  by_cases hcomma : c = ','
  · rw [if_pos hcomma] at h ⊢
    cases h
    rw [tokens_comma]
    exact ⟨Nat.le_refl _, fun hn => (if_pos hn).symm⟩
  rw [if_neg hcomma] at h ⊢
  cases hprimitive : jsmnPrimitive (c :: s) with
  | error e => rw [hprimitive] at h; cases h
  | ok j =>
    rw [hprimitive] at h
    exact round_limit (f := fun r => (j - 1, r)) (fun _ => rfl) h

/-- INTERNAL: with another limit, the tokenizer does the same, or there is no room for a token. -/
theorem jsmnFrom_limit (h : jsmnFrom m pos s p = .ok q) (hn : p.tokens.length ≤ n) :
    p.tokens.length ≤ q.tokens.length ∧
      jsmnFrom n pos s p = if q.tokens.length ≤ n then .ok q else .error .nomem := by
  induction hlen : s.length using Nat.strongRecOn generalizing pos s p n with
  | ind len ih =>
    cases s with
    | nil =>
      cases h
      rw [if_pos hn]
      exact ⟨Nat.le_refl _, rfl⟩
    | cons c s =>
      cases hstep : jsmnStep m pos c s p with
      | error e => simp [jsmnFrom, jsmnLoop, hstep] at h
      | ok r =>
        have hshort : (s.drop r.1).length < len := by
          rw [← hlen, List.length_drop, List.length_cons]
          omega
        rw [jsmnFrom_cons hstep] at h
        obtain ⟨hle, hlimit⟩ := jsmnStep_limit (n := n) hstep
        have hlimit := hlimit hn
        have hmono := (ih _ hshort h (Nat.le_refl r.2.tokens.length) rfl).1
        refine ⟨hle.trans hmono, ?_⟩
        by_cases hroom : r.2.tokens.length ≤ n
        · rw [if_pos hroom] at hlimit
          rw [jsmnFrom_cons hlimit]
          exact (ih _ hshort h hroom rfl).2
        · rw [if_neg hroom] at hlimit
          rw [if_neg (by omega), jsmnFrom, List.length_cons, jsmnLoop, hlimit]

/-- INTERNAL: the limit on the tokens decides only whether there is a result: what one limit gives,
another one gives as well, or there is no room for it.
SOURCE: jsmn.c:8-21, 153-300 -/
theorem jsmnParse_limit {toks : List JsmnToken} (h : jsmnParse m js = .ok toks) (n : ℕ) :
    jsmnParse n js = if toks.length ≤ n then .ok toks else .error .nomem := by
  rw [jsmnParse_eq] at h ⊢
  cases hrun : jsmnFrom m 0 js {} with
  | error e => rw [hrun] at h; cases h
  | ok p =>
    rw [hrun] at h
    dsimp only at h
    rw [(jsmnFrom_limit (n := n) hrun (Nat.zero_le n)).2]
    split at h
    · cases h
    · next hopen =>
      cases h
      by_cases hroom : p.tokens.length ≤ n
      · rw [if_pos hroom, if_pos hroom]
        dsimp only
        rw [if_neg hopen]
      · rw [if_neg hroom, if_neg hroom]

end Limit

/-! ## What the tokens say -/

/-- The label of a token. -/
def tokenLabel (js : Text) (tok : JsmnToken) : Label :=
  match tok.type with
  | .object => .object
  | .array => .array
  | .string => .string (tok.text js)
  | .primitive => .word (tok.text js)

/-- The labels of tokens, with what they count. -/
def readTokens (js : Text) (toks : List JsmnToken) : List (Label × ℕ) :=
  toks.map fun tok => (tokenLabel js tok, tok.size)

theorem readTokens_append (js : Text) (toks toks' : List JsmnToken) :
    readTokens js (toks ++ toks') = readTokens js toks ++ readTokens js toks' :=
  List.map_append

/-- No token is open. -/
def AllClosed (toks : List JsmnToken) : Prop := ∀ tok ∈ toks, tok.isOpen = false

theorem AllClosed.append {toks toks' : List JsmnToken} (h : AllClosed toks) (h' : AllClosed toks') :
    AllClosed (toks ++ toks') := fun tok htok =>
  (List.mem_append.mp htok).elim (h tok) (h' tok)

theorem IsPiece.label {text : Text} {tok : JsmnToken} (h : IsPiece js .string text tok) :
    tokenLabel js tok = .string text := by
  rw [tokenLabel, h.type, h.text]

/-- A string is no container. -/
theorem not_container_of_label {tok : JsmnToken} {text : Text}
    (h : tokenLabel js tok = .string text) : tok.isContainer = false := by
  unfold tokenLabel at h
  cases htype : tok.type with
  | object => rw [htype] at h; cases h
  | array => rw [htype] at h; cases h
  | string => simp [JsmnToken.isContainer, htype]
  | primitive => rw [htype] at h; cases h

/-- The text is over, or what follows ends a primitive. -/
def ValueEnds (rest : Text) : Prop := rest = [] ∨ Delimited rest

theorem ends_blank {b : Text} (hb : Blank b) (h : ValueEnds rest) : ValueEnds (b ++ rest) := by
  cases b with
  | nil => exact h
  | cons c b =>
    refine Or.inr ⟨c, b ++ rest, rfl, ?_⟩
    have hc := hb c List.mem_cons_self
    simp only [isBlank, Bool.or_eq_true, beq_iff_eq] at hc
    rcases hc with ((rfl | rfl) | rfl) | rfl <;> rfl

/-- A primitive ends with the text, or before the first character that is not its own. -/
theorem jsmnPrimitive_ends {w : Text} (hw : ∀ c ∈ w, isWordChar c = true) (h : ValueEnds rest) :
    jsmnPrimitive (w ++ rest) = .ok w.length := by
  rcases h with rfl | h
  · rw [List.append_nil]
    induction w with
    | nil => rfl
    | cons c w ih =>
      obtain ⟨hend, hrange⟩ := isWordChar_printable (hw c List.mem_cons_self)
      rw [jsmnPrimitive, if_neg (by simp [hend]), if_neg (by simpa using hrange),
        ih fun d hd => hw d (List.mem_cons_of_mem _ hd)]
      rfl
  · exact jsmnPrimitive_word hw h

/-! ## Rounds -/

section Rounds

variable {p : JsmnParser} {c : Char}

/-- INTERNAL: the round that reads a string.
SOURCE: jsmn.c:86-150, 230-236 -/
theorem jsmnStep_quote (hsuper : HasSuper p) (hroom : p.tokens.length < n) {body : Text}
    (hbody : StringBody body) :
    jsmnStep n pos '"' (body ++ '"' :: rest) p =
      .ok (body.length + 1,
        { p with tokens := count p p.tokens ++
            [{ type := .string, start := pos + 1, stop := some (pos + 1 + body.length), size := 0 }] }) := by
  simp [jsmnStep, jsmnString_body hbody, add_eq hsuper hroom]

/-- INTERNAL: the round that reads a primitive.
SOURCE: jsmn.c:38-81, 260-287 -/
theorem jsmnStep_primitive (hsuper : HasSuper p) (hroom : p.tokens.length < n) {w : Text}
    (hw : ∀ d ∈ c :: w, isWordChar d = true) (hends : ValueEnds rest) :
    jsmnStep n pos c (w ++ rest) p =
      .ok (w.length,
        { p with tokens := count p p.tokens ++
            [{ type := .primitive, start := pos, stop := some (pos + (w.length + 1)), size := 0 }] }) := by
  have hc : ∀ d, isWordChar d = false → c ≠ d := fun d hd =>
    ne_of_isWordChar (hw c List.mem_cons_self) hd
  have hread := jsmnPrimitive_ends hw hends
  rw [List.cons_append] at hread
  simp only [jsmnStep, hc '\x7b' rfl, hc '[' rfl, hc '\x7d' rfl, hc ']' rfl, hc '"' rfl, hc '\t' rfl,
    hc '\r' rfl, hc '\n' rfl, hc ' ' rfl, hc ':' rfl, hc ',' rfl, or_self, if_false, hread,
    List.length_cons, add_eq hsuper hroom, Nat.add_sub_cancel]

/-- INTERNAL: the round that begins a container.
SOURCE: jsmn.c:166-183 -/
theorem jsmnStep_open (hsuper : HasSuper p) (hroom : p.tokens.length < n)
    (hc : c = '\x7b' ∨ c = '[') {type : JsmnType}
    (htype : type = if c = '\x7b' then .object else .array) :
    jsmnStep n pos c rest p =
      .ok (0,
        { tokens := count p p.tokens ++ [{ type := type, start := pos, stop := none, size := 0 }]
          toksuper := some (count p p.tokens).length }) := by
  rw [jsmnStep, if_pos hc]
  dsimp only
  rw [← htype, add_eq hsuper hroom]
  simp

/-- INTERNAL: a comma goes back to the container, behind which everything is closed.
SOURCE: jsmn.c:242-259 -/
theorem jsmnStep_comma {before after : List JsmnToken} {cont : JsmnToken} {super : Option ℕ}
    (hcont : cont.isContainer = true) (hopen : cont.isOpen = true) (hafter : AllClosed after)
    (hsuper : super = some before.length ∨
      ((super.bind ((before ++ cont :: after)[·]?)).any JsmnToken.isContainer) = false) :
    jsmnStep n pos ',' rest { tokens := before ++ cont :: after, toksuper := super } =
      .ok (0, { tokens := before ++ cont :: after, toksuper := some before.length }) := by
  have hcomma : JsmnParser.comma { tokens := before ++ cont :: after, toksuper := super } =
      { tokens := before ++ cont :: after, toksuper := some before.length } := by
    rcases hsuper with rfl | hno
    · simp [JsmnParser.comma, hcont]
    · have hlast : lastWhere (fun t => t.isContainer && t.isOpen) (before ++ cont :: after) =
          some before.length :=
        lastWhere_append (by simp [hcont, hopen]) fun t ht => by simp [hafter t ht]
      rw [JsmnParser.comma, if_neg (by simpa using hno)]
      simp only [hlast]
  rw [← hcomma]
  simp [jsmnStep]

end Rounds

/-! ## Moving over a part -/

/-- A container that counts, and the closed tokens behind it. -/
structure Counting (cont : JsmnToken) (after : List JsmnToken) : Prop where
  container : cont.isContainer = true
  isOpen : cont.isOpen = true
  closed : AllClosed after

theorem Counting.count {cont : JsmnToken} {after : List JsmnToken} (h : Counting cont after)
    (k : ℕ) : Counting { cont with size := k } after := ⟨h.container, h.isOpen, h.closed⟩

theorem Counting.append {cont : JsmnToken} {after toks : List JsmnToken} (h : Counting cont after)
    (htoks : AllClosed toks) : Counting cont (after ++ toks) :=
  ⟨h.container, h.isOpen, h.closed.append htoks⟩

/-- The tokenizer moves over a text, in which there is a document: its tokens come behind the
others, and the next one is counted where it was before, or in the last open token. -/
def MovesValue (n : ℕ) (js : Text) (d : Document) (s : Text) : Prop :=
  ∀ (pos : ℕ) (rest : Text) (p : JsmnParser), js.drop pos = s ++ rest → ValueEnds rest → HasSuper p →
    p.tokens.length + d.size ≤ n →
    ∃ toks super, AllClosed toks ∧ readTokens js toks = d.preorder ∧
      (super = p.toksuper ∨ super = lastWhere JsmnToken.isOpen (count p p.tokens ++ toks)) ∧
      jsmnAt n js pos p =
        jsmnAt n js (pos + s.length) { tokens := count p p.tokens ++ toks, toksuper := super }

/-- The tokenizer moves over items within a container. -/
def MovesItems (n : ℕ) (js : Text) (ds : List Document) (s : Text) : Prop :=
  ∀ (pos : ℕ) (rest : Text) (before after : List JsmnToken) (cont : JsmnToken),
    js.drop pos = s ++ rest → ValueEnds rest → Counting cont after →
    before.length + 1 + after.length + sizeAll ds ≤ n →
    ∃ toks super, AllClosed toks ∧ readTokens js toks = preorderAll ds ∧
      (super = some before.length ∨ ((super.bind ((before ++
        { cont with size := cont.size + ds.length } :: (after ++ toks))[·]?)).any
          JsmnToken.isContainer) = false) ∧
      jsmnAt n js pos { tokens := before ++ cont :: after, toksuper := some before.length } =
        jsmnAt n js (pos + s.length)
          { tokens := before ++ { cont with size := cont.size + ds.length } :: (after ++ toks)
            toksuper := super }

/-- What the tokenizer does with a part of a document. -/
def Moves (n : ℕ) (js : Text) : Part → Text → Prop
  | .value d, s => MovesValue n js d s
  | .item false d, s => MovesValue n js d s
  | .item true d, s => MovesItems n js [d] s
  | .items _ ds, s => MovesItems n js ds s

/-- INTERNAL: a string becomes a token.
SOURCE: jsmn.c:230-236 -/
theorem moves_string {body : Text} (h : StringBody body) :
    MovesValue n js (.string body) ('"' :: (body ++ ['"'])) := by
  intro pos rest p hdrop _ hsuper hroom
  have hsize : p.tokens.length < n := hroom
  have hquote : js.drop pos = '"' :: (body ++ '"' :: rest) := by simpa using hdrop
  have hpiece : IsPiece js .string body _ := isPiece_of_drop (drop_of_drop (a := ['"']) hquote) .string 0
  refine ⟨[{ type := .string, start := pos + 1, stop := some (pos + 1 + body.length), size := 0 }],
    p.toksuper, List.forall_mem_singleton.mpr rfl, ?_, Or.inl rfl, ?_⟩
  · have hlabel := hpiece.label
    exact congrArg (fun label => [(label, 0)]) hlabel
  · rw [jsmnAt_step hquote (jsmnStep_quote hsuper hsize h)]
    congr 1
    simp only [List.length_cons, List.length_append, List.length_nil]
    omega

/-- INTERNAL: a primitive becomes a token.
SOURCE: jsmn.c:260-287 -/
theorem moves_word {w : Text} (h : Word w) : MovesValue n js (.word w) w := by
  intro pos rest p hdrop hends hsuper hroom
  have hsize : p.tokens.length < n := hroom
  obtain ⟨hne, hword⟩ := h
  obtain ⟨c, w, rfl⟩ := List.exists_cons_of_ne_nil hne
  have hpiece := isPiece_of_drop hdrop .primitive 0
  refine ⟨[{ type := .primitive, start := pos, stop := some (pos + (w.length + 1)), size := 0 }],
    p.toksuper, List.forall_mem_singleton.mpr rfl, ?_, Or.inl rfl, ?_⟩
  · exact congrArg (fun text => [(Label.word text, 0)]) hpiece.text
  · rw [jsmnAt_step hdrop (jsmnStep_primitive hsuper hsize hword hends)]
    congr 1
    simp only [List.length_cons]
    omega

/-- INTERNAL: a container becomes a token with those of its items behind it.
SOURCE: jsmn.c:166-229 -/
theorem moves_container {c c' : Char} {type : JsmnType} {label : Label} {ds : List Document}
    {s : Text} (hc : c = '\x7b' ∨ c = '[') (htype : type = if c = '\x7b' then .object else .array)
    (hc' : c' = '\x7d' ∨ c' = ']') (htype' : type = if c' = '\x7d' then .object else .array)
    (hlabel : ∀ tok : JsmnToken, tok.type = type → tokenLabel js tok = label)
    (h : MovesItems n js ds s) : MovesValue n js (.node label ds) (c :: (s ++ [c'])) := by
  intro pos rest p hdrop _ hsuper hroom
  rw [size_node] at hroom
  have hopening : js.drop pos = c :: (s ++ c' :: rest) := by simpa using hdrop
  have hbehind : js.drop (pos + 1 + 0) = s ++ c' :: rest := drop_of_drop (a := [c]) hopening
  have hclosing : js.drop (pos + 1 + 0 + s.length) = c' :: rest := drop_of_drop hbehind
  have hends : ValueEnds (c' :: rest) := by
    refine Or.inr ⟨c', rest, rfl, ?_⟩
    rcases hc' with rfl | rfl <;> rfl
  let cont : JsmnToken := { type := type, start := pos, stop := none, size := 0 }
  have hcounting : Counting cont [] := by
    refine ⟨?_, rfl, List.forall_mem_nil _⟩
    rcases hc with rfl | rfl <;> simp [JsmnToken.isContainer, cont, htype]
  obtain ⟨toks, super, hclosed, hread, -, hrun⟩ := h (pos + 1 + 0) (c' :: rest)
    (count p p.tokens) [] cont hbehind hends hcounting (by
      rw [length_count, List.length_nil]
      omega)
  refine ⟨{ cont with size := ds.length, stop := some (pos + 1 + 0 + s.length + 1) } :: toks, _,
    List.forall_mem_cons.mpr ⟨rfl, hclosed⟩, ?_, Or.inr rfl, ?_⟩
  · rw [readTokens, List.map_cons, hlabel _ rfl, preorder, ← hread]
    rfl
  · rw [jsmnAt_step hopening (jsmnStep_open hsuper (by omega) hc htype), hrun, Nat.zero_add,
      List.nil_append, jsmnAt_step hclosing (jsmnStep_close hc' htype' rfl hclosed)]
    congr 1
    simp only [List.length_cons, List.length_append, List.length_nil]
    omega

/-- INTERNAL: blanks around a document are passed over.
SOURCE: jsmn.c:237-238 -/
theorem MovesValue.padded {d : Document} {l s r : Text} (hl : Blank l) (h : MovesValue n js d s)
    (hr : Blank r) : MovesValue n js d (l ++ s ++ r) := by
  intro pos rest p hdrop hends hsuper hroom
  rw [List.append_assoc, List.append_assoc] at hdrop
  have hs := drop_of_drop hdrop
  obtain ⟨toks, super, hclosed, hread, hsuper', hrun⟩ :=
    h _ _ p hs (ends_blank hr hends) hsuper hroom
  refine ⟨toks, super, hclosed, hread, hsuper', ?_⟩
  rw [jsmnAt_blank hl hdrop, hrun, jsmnAt_blank hr (drop_of_drop hs)]
  congr 1
  simp only [List.length_append]
  omega

/-- INTERNAL: a document is an item of an array.
SOURCE: jsmn.c:160-290 -/
theorem MovesValue.item {d : Document} {s : Text} (h : MovesValue n js d s) :
    MovesItems n js [d] s := by
  intro pos rest before after cont hdrop hends hcounting hroom
  obtain ⟨toks, super, hclosed, hread, hsuper, hrun⟩ := h pos rest
    { tokens := before ++ cont :: after, toksuper := some before.length } hdrop hends
    (fun k hk => by
      cases hk
      simp)
    (by
      simp only [sizeAll_cons, sizeAll_nil] at hroom
      simp only [List.length_append, List.length_cons]
      omega)
  rw [count_at, List.append_assoc, List.cons_append] at hsuper hrun
  refine ⟨toks, super, hclosed, ?_, Or.inl ?_, hrun⟩
  · rw [hread, preorderAll, preorderAll, List.append_nil]
  · rcases hsuper with rfl | rfl
    · rfl
    · exact lastWhere_append hcounting.isOpen (hcounting.append hclosed).closed

/-- INTERNAL: a key and a document are a member of an object.
SOURCE: jsmn.c:160-290 -/
theorem MovesValue.member {key k : Text} {d : Document} {s : Text} (hk : Padded (SpellsString key) k)
    (h : MovesValue n js d s) : MovesItems n js [.member key d] (k ++ ':' :: s) := by
  intro pos rest before after cont hdrop hends hcounting hroom
  rw [List.append_assoc, List.cons_append] at hdrop
  have hcolon := drop_of_drop hdrop
  have hvalue : js.drop (pos + k.length + 1 + 0) = s ++ rest := drop_of_drop (a := [':']) hcolon
  have hkey : MovesValue n js (.string key) k := by
    obtain ⟨l, m, r, hl, ⟨hbody⟩, hr, rfl⟩ := hk
    exact (moves_string hbody).padded hl hr
  have hsize : before.length + 1 + after.length + 1 + d.size ≤ n := by
    simp only [Document.member, sizeAll_cons, sizeAll_nil, size_node] at hroom
    omega
  obtain ⟨toks, super, hclosed, hread, -, hrun⟩ := hkey pos (':' :: (s ++ rest))
    { tokens := before ++ cont :: after, toksuper := some before.length } hdrop
    (Or.inr ⟨':', _, rfl, rfl⟩)
    (fun k hk => by
      cases hk
      simp)
    (by
      simp only [Document.string, size_node, sizeAll_nil, List.length_append, List.length_cons]
      omega)
  obtain ⟨tok, rfl, htok⟩ := List.map_eq_singleton_iff.mp hread
  obtain ⟨hlabel, hzero⟩ := Prod.mk.injEq .. ▸ htok
  rw [count_at] at hrun
  obtain ⟨counted, hcounted⟩ : ∃ counted,
      counted = before ++ { cont with size := cont.size + 1 } :: after := ⟨_, rfl⟩
  rw [← hcounted] at hrun
  have hcolonStep : jsmnStep n (pos + k.length) ':' (s ++ rest)
      { tokens := counted ++ [tok], toksuper := super } =
      .ok (0, { tokens := counted ++ [tok], toksuper := some counted.length }) := by
    simp [jsmnStep]
  obtain ⟨toks', super', hclosed', hread', hsuper', hrun'⟩ := h _ rest
    { tokens := counted ++ [tok], toksuper := some counted.length } hvalue hends
    (fun k hk => by
      cases hk
      simp)
    (by
      simp only [hcounted, List.length_append, List.length_cons, List.length_nil]
      omega)
  rw [count_at, List.append_assoc, List.singleton_append] at hsuper' hrun'
  have hkeyOpen : tok.isOpen = false := hclosed tok List.mem_cons_self
  have hclosed'' : AllClosed ({ tok with size := tok.size + 1 } :: toks') :=
    List.forall_mem_cons.mpr ⟨hkeyOpen, hclosed'⟩
  refine ⟨{ tok with size := tok.size + 1 } :: toks', super', hclosed'', ?_, ?_, ?_⟩
  · have hcounts : readTokens js ({ tok with size := tok.size + 1 } :: toks') =
        (tokenLabel js tok, tok.size + 1) :: readTokens js toks' := rfl
    rw [hcounts, hlabel, hzero, hread']
    simp [Document.member, preorder, preorderAll]
  · rcases hsuper' with rfl | rfl
    · -- the key still counts, and is no container
      right
      have hlist : before ++ { cont with size := cont.size + [Document.member key d].length } ::
          (after ++ { tok with size := tok.size + 1 } :: toks') =
          counted ++ { tok with size := tok.size + 1 } :: toks' := by
        rw [hcounted, List.append_assoc, List.cons_append]
        rfl
      rw [hlist, Option.bind_some, List.getElem?_append_right (Nat.le_refl _), Nat.sub_self]
      exact not_container_of_label hlabel
    · left
      rw [hcounted, List.append_assoc, List.cons_append]
      exact lastWhere_append hcounting.isOpen (hcounting.append hclosed'').closed
  · rw [hrun, jsmnAt_step hcolon hcolonStep, hrun', hcounted]
    congr 1
    · simp only [List.length_append, List.length_cons]
      omega
    · simp

/-- INTERNAL: blanks between brackets.
SOURCE: jsmn.c:237-238 -/
theorem movesItems_nil {b : Text} (hb : Blank b) : MovesItems n js [] b := by
  intro pos rest before after cont hdrop _ _ _
  refine ⟨[], some before.length, List.forall_mem_nil _, rfl, Or.inl rfl, ?_⟩
  rw [jsmnAt_blank hb hdrop, List.append_nil]
  rfl

/-- INTERNAL: an item and a comma before other items.
SOURCE: jsmn.c:242-259 -/
theorem MovesItems.more {d e : Document} {ds : List Document} {s s' : Text}
    (h : MovesItems n js [d] s) (hs : MovesItems n js (e :: ds) s') :
    MovesItems n js (d :: e :: ds) (s ++ ',' :: s') := by
  intro pos rest before after cont hdrop hends hcounting hroom
  rw [List.append_assoc, List.cons_append] at hdrop
  have hcomma := drop_of_drop hdrop
  have hothers : js.drop (pos + s.length + 1 + 0) = s' ++ rest := drop_of_drop (a := [',']) hcomma
  rw [sizeAll_cons] at hroom
  obtain ⟨toks, super, hclosed, hread, hsuper, hrun⟩ := h pos (',' :: (s' ++ rest)) before after
    cont hdrop (Or.inr ⟨',', _, rfl, rfl⟩) hcounting (by
      rw [sizeAll_cons, sizeAll_nil]
      omega)
  have hcounting' := (hcounting.append hclosed).count (cont.size + [d].length)
  have hlength : toks.length = d.size := by
    rw [← List.length_map (f := fun tok => (tokenLabel js tok, tok.size)), ← readTokens, hread,
      ← sizeAll, sizeAll_cons, sizeAll_nil, Nat.add_zero]
  obtain ⟨toks', super', hclosed', hread', hsuper', hrun'⟩ := hs _ rest before (after ++ toks)
    { cont with size := cont.size + [d].length } hothers hends hcounting' (by
      rw [List.length_append, hlength]
      omega)
  have hcount : cont.size + [d].length + (e :: ds).length = cont.size + (d :: e :: ds).length := by
    simp only [List.length_cons, List.length_nil]
    omega
  refine ⟨toks ++ toks', super', hclosed.append hclosed', ?_, ?_, ?_⟩
  · rw [readTokens_append, hread, hread', preorderAll, preorderAll, List.append_nil]
    rfl
  · rwa [hcount, List.append_assoc] at hsuper'
  · rw [hrun, jsmnAt_step hcomma (jsmnStep_comma hcounting'.container hcounting'.isOpen
      hcounting'.closed hsuper), hrun', ← hcount, List.append_assoc]
    congr 1
    simp only [List.length_append, List.length_cons]
    omega

/-- INTERNAL: **every part of a document** is moved over.
SOURCE: jsmn.c:153-300 -/
theorem moves_written {part : Part} {s : Text} (h : Written part s) : Moves n js part s := by
  induction h with
  | string h => exact moves_string h
  | word h => exact moves_word h
  | array _ ih =>
    exact moves_container (Or.inr rfl) rfl (Or.inr rfl) rfl
      (fun tok htok => by rw [tokenLabel, htok]; rfl) ih
  | object _ ih =>
    exact moves_container (Or.inl rfl) rfl (Or.inl rfl) rfl
      (fun tok htok => by rw [tokenLabel, htok]; rfl) ih
  | element hl _ hr ih => exact MovesValue.padded hl ih hr
  | member hk _ ih => exact MovesValue.member hk ih
  | none hb => exact movesItems_nil hb
  | @one keyed d s _ ih =>
    cases keyed with
    | false => exact MovesValue.item ih
    | true => exact ih
  | @more keyed d e ds s s' _ _ ih ih' =>
    cases keyed with
    | false => exact (MovesValue.item ih).more ih'
    | true => exact MovesItems.more ih ih'

/-! ## The whole text -/

/-- The document `\x7b"a": [1, \x7b\x7d]\x7d`. -/
def nestedDocument : Document :=
  .object [.member "a".toList (.array [.word "1".toList, .object []])]

/-- INTERNAL: a text that writes a document is read, when there is room for its tokens.
SOURCE: jsmn.c:153-300 -/
theorem jsmnParse_written {d : Document} {s : Text} (h : WritesDocument d s) :
    ∃ toks, jsmnParse d.size s = .ok toks ∧ readTokens s toks = d.preorder := by
  obtain ⟨toks, super, hclosed, hread, -, hrun⟩ :=
    @moves_written d.size s _ s h 0 [] {} (by simp) (Or.inl rfl)
      (fun k hk => by cases hk) (by simp)
  have hend : s.drop (0 + s.length) = [] := by simp
  have hcount : count {} ([] : List JsmnToken) ++ toks = toks := rfl
  rw [jsmnAt_end hend, hcount] at hrun
  have hparse : jsmnFrom d.size 0 s {} = jsmnAt d.size s 0 {} := rfl
  have hnone : toks.any JsmnToken.isOpen = false := List.any_eq_false.mpr fun tok htok => by
    rw [hclosed tok htok]
    exact Bool.false_ne_true
  refine ⟨toks, ?_, hread⟩
  rw [jsmnParse_eq, hparse, hrun]
  dsimp only
  rw [if_neg (by rw [hnone]; exact Bool.false_ne_true)]

/-- **Documents of any depth are read**: the tokens are the document in preorder, each with the
number of its children, for every limit that has room for them, and there is no result for the
others.  No text writes two documents.
SOURCE: jsmn.c:153-300 -/
theorem jsmnParse_document {d : Document} {s : Text} (h : WritesDocument d s) :
    (∃ toks, readTokens s toks = d.preorder ∧
      ∀ n, jsmnParse n s = if d.size ≤ n then .ok toks else .error .nomem) ∧
    ∀ d', WritesDocument d' s → d' = d := by
  obtain ⟨toks, hparse, hread⟩ := jsmnParse_written h
  have hlength : toks.length = d.size := by
    rw [size, ← hread, readTokens, List.length_map]
  refine ⟨⟨toks, hread, fun n => hlength ▸ jsmnParse_limit hparse n⟩, fun d' h' => ?_⟩
  obtain ⟨toks', hparse', hread'⟩ := jsmnParse_written h'
  have hlimit := jsmnParse_limit hparse d'.size
  rw [hparse'] at hlimit
  split at hlimit
  · cases hlimit
    exact preorder_inj (hread'.symm.trans hread)
  · cases hlimit

/-- Documents in a document. -/
theorem jsmnParse_document_sample :
    ∃ toks, readTokens "\x7b\"a\": [1, \x7b\x7d]\x7d".toList toks =
        [(.object, 1), (.string "a".toList, 1), (.array, 2), (.word "1".toList, 0), (.object, 0)] ∧
      ∀ n, jsmnParse n "\x7b\"a\": [1, \x7b\x7d]\x7d".toList =
        if 5 ≤ n then .ok toks else .error .nomem := by
  have hnone : Blank [] := List.forall_mem_nil _
  have hblank : Blank [' '] := by decide
  have hone : Written (.item false (.word "1".toList)) _ := .element hnone (.word (by decide)) hnone
  have hobject : Written (.item false (.object [])) _ := .element hblank (.object (.none hnone)) hnone
  have harray : Written (.item false (.array [.word "1".toList, .object []])) _ :=
    .element hblank (.array (.more hone (.one hobject))) hnone
  have hkey : StringBody "a".toList := StringBody.of_plain (by decide)
  have hwritten : WritesDocument nestedDocument "\x7b\"a\": [1, \x7b\x7d]\x7d".toList :=
    .element hnone (.object (.one (.member (Padded.of (.mk hkey)) harray))) hnone
  obtain ⟨⟨toks, hread, hall⟩, -⟩ := jsmnParse_document hwritten
  have hpreorder : nestedDocument.preorder =
      [(.object, 1), (.string "a".toList, 1), (.array, 2), (.word "1".toList, 0), (.object, 0)] := by
    simp [nestedDocument, Document.object, Document.member, Document.array, Document.word, preorder,
      preorderAll]
  have hsize : nestedDocument.size = 5 := by rw [size, hpreorder]; rfl
  exact ⟨toks, hread.trans hpreorder, fun n => hsize ▸ hall n⟩

end WifiCat.Analysis
