import WifiCat.Model.Jsmn
import WifiCat.Library.JsonText

/-!
# The tokens of a text

Two facts about the tokenizer.  On every text it accepts, the tokens lie within the text,
none of them is open, and none counts more tokens than stand behind it (`jsmnParse_bounds`).
On a text that spells a flat object, the tokens are those of its members, in order
(`jsmnParse_spells`).
-/

set_option autoImplicit false

namespace WifiCat.Analysis

open Scan WifiCat JsonText

/-! ## The loop, without fuel -/

/-- The tokenizer from a position on, with as many rounds as there are characters. -/
def jsmnFrom (numTokens pos : ℕ) (s : Text) (p : JsmnParser) : Except JsmnErr JsmnParser :=
  jsmnLoop numTokens s.length pos s p

theorem jsmnLoop_eq_from {numTokens fuel pos : ℕ} {s : Text} {p : JsmnParser}
    (h : s.length ≤ fuel) : jsmnLoop numTokens fuel pos s p = jsmnFrom numTokens pos s p := by
  unfold jsmnFrom
  induction hlen : s.length using Nat.strongRecOn generalizing fuel pos s p with
  | ind len ih =>
    cases s with
    | nil =>
      subst hlen
      cases fuel <;> rfl
    | cons c s =>
      obtain ⟨fuel, rfl⟩ : ∃ n, fuel = n + 1 := ⟨fuel - 1, by simp at h; omega⟩
      subst hlen
      simp only [List.length_cons, jsmnLoop]
      cases hstep : jsmnStep numTokens pos c s p with
      | error e => rfl
      | ok r =>
        have hdrop : (s.drop r.1).length ≤ s.length := by simp
        have hfuel : s.length ≤ fuel := by simpa using h
        dsimp only
        rw [ih _ (by simp) (hdrop.trans hfuel) rfl, ih _ (by simp) hdrop rfl]

theorem jsmnFrom_nil (numTokens pos : ℕ) (p : JsmnParser) :
    jsmnFrom numTokens pos [] p = .ok p := rfl

/-- One round. -/
theorem jsmnFrom_cons {numTokens pos n : ℕ} {c : Char} {s : Text} {p p' : JsmnParser}
    (h : jsmnStep numTokens pos c s p = .ok (n, p')) :
    jsmnFrom numTokens pos (c :: s) p = jsmnFrom numTokens (pos + 1 + n) (s.drop n) p' := by
  rw [jsmnFrom, List.length_cons, jsmnLoop, h]
  exact jsmnLoop_eq_from (by simp)

theorem jsmnParse_eq (numTokens : ℕ) (js : Text) :
    jsmnParse numTokens js =
      match jsmnFrom numTokens 0 js {} with
      | .error e => .error e
      | .ok p => if p.tokens.any JsmnToken.isOpen then .error .part else .ok p.tokens := rfl

/-! ## Searching from the end -/

theorem lastWhere_eq_none {q : JsmnToken → Bool} {toks : List JsmnToken}
    (h : ∀ tok ∈ toks, q tok = false) : lastWhere q toks = none := by
  induction toks with
  | nil => rfl
  | cons tok toks ih =>
    rw [lastWhere, ih fun t ht => h t (List.mem_cons_of_mem _ ht), h tok List.mem_cons_self]
    rfl

/-- The last token with a property stands before those without it. -/
theorem lastWhere_append {q : JsmnToken → Bool} {before after : List JsmnToken}
    {tok : JsmnToken} (htok : q tok = true) (h : ∀ t ∈ after, q t = false) :
    lastWhere q (before ++ tok :: after) = some before.length := by
  induction before with
  | nil => rw [List.nil_append, lastWhere, lastWhere_eq_none h, htok]; rfl
  | cons b before ih =>
    rw [List.cons_append, lastWhere, ih]
    rfl

/-- What the search from the end finds. -/
theorem lastWhere_eq_some {q : JsmnToken → Bool} {toks : List JsmnToken} {i : ℕ}
    (h : lastWhere q toks = some i) : ∃ tok, toks[i]? = some tok ∧ q tok = true := by
  induction toks generalizing i with
  | nil => cases h
  | cons tok toks ih =>
    rw [lastWhere] at h
    split at h
    · next j hj =>
      cases h
      simpa using ih hj
    · split at h
      · next htok =>
        cases h
        exact ⟨tok, rfl, htok⟩
      · cases h

/-! ## Bounds -/

theorem map_eq_ok {ε α β : Type} {x : Except ε α} {f : α → β} {b : β}
    (h : x.map f = .ok b) : ∃ a, x = .ok a ∧ f a = b := by
  cases x with
  | error e => cases h
  | ok a => exact ⟨a, rfl, Except.ok.inj h⟩

/-- A string ends before the end of the text. -/
theorem jsmnString_lt {k n : ℕ} {s : Text} (h : jsmnString k s = .ok n) : n < s.length := by
  fun_induction jsmnString k s generalizing n with
  | case1 => cases h
  | case2 k c s hhex ih =>
    obtain ⟨j, hj, rfl⟩ := map_eq_ok h
    simpa using ih hj
  | case3 => cases h
  | case4 s =>
    cases h
    simp
  | case5 c s hc ih =>
    obtain ⟨j, hj, rfl⟩ := map_eq_ok h
    simpa using ih hj
  | case6 s hc ih =>
    obtain ⟨j, hj, rfl⟩ := map_eq_ok h
    simpa using ih hj
  | case7 => cases h
  | case8 c s hquote hback ih =>
    obtain ⟨j, hj, rfl⟩ := map_eq_ok h
    simpa using ih hj

theorem jsmnPrimitive_le {n : ℕ} {s : Text} (h : jsmnPrimitive s = .ok n) : n ≤ s.length := by
  induction s generalizing n with
  | nil =>
    cases h
    simp
  | cons c s ih =>
    rw [jsmnPrimitive] at h
    split at h
    · cases h
      simp
    · split at h
      · cases h
      · obtain ⟨j, hj, rfl⟩ := map_eq_ok h
        simpa using ih hj

/-- A primitive has a character. -/
theorem jsmnPrimitive_pos {n : ℕ} {c : Char} {s : Text} (hc : endsPrimitive c = false)
    (h : jsmnPrimitive (c :: s) = .ok n) : 0 < n := by
  rw [jsmnPrimitive, if_neg (by simp [hc])] at h
  split at h
  · cases h
  · obtain ⟨j, -, rfl⟩ := map_eq_ok h
    omega

/-- INTERNAL: What one round of the tokenizer can do.
SOURCE: jsmn.c:160-290 -/
theorem jsmnStep_cases {numTokens pos n : ℕ} {c : Char} {s : Text} {p p' : JsmnParser}
    (h : jsmnStep numTokens pos c s p = .ok (n, p')) :
    (∃ type q, p.add numTokens { type := type, start := pos, stop := none, size := 0 } = .ok q ∧
      n = 0 ∧ p' = { q with toksuper := some (q.tokens.length - 1) }) ∨
    (∃ type, p.close type pos = .ok p' ∧ n = 0) ∨
    (∃ k, jsmnString 0 s = .ok k ∧ n = k + 1 ∧
      p.add numTokens { type := .string, start := pos + 1, stop := some (pos + 1 + k), size := 0 } =
        .ok p') ∨
    (n = 0 ∧ p' = p) ∨
    (n = 0 ∧ p' = { p with
      toksuper := if p.tokens = [] then none else some (p.tokens.length - 1) }) ∨
    (n = 0 ∧ p' = p.comma) ∨
    (∃ k, jsmnPrimitive (c :: s) = .ok k ∧ 0 < k ∧ n = k - 1 ∧
      p.add numTokens { type := .primitive, start := pos, stop := some (pos + k), size := 0 } =
        .ok p') := by
  unfold jsmnStep at h
  split at h
  · dsimp only at h
    split at h
    · cases h
    · next q hq =>
      cases h
      exact .inl ⟨_, q, hq, rfl, rfl⟩
  split at h
  · split at h
    · cases h
    · next q hq =>
      cases h
      exact .inr (.inl ⟨_, hq, rfl⟩)
  split at h
  · split at h
    · cases h
    · next k hk =>
      split at h
      · cases h
      · next q hq =>
        cases h
        exact .inr (.inr (.inl ⟨k, hk, rfl, hq⟩))
  split at h
  · cases h
    exact .inr (.inr (.inr (.inl ⟨rfl, rfl⟩)))
  split at h
  · cases h
    exact .inr (.inr (.inr (.inr (.inl ⟨rfl, rfl⟩))))
  split at h
  · cases h
    exact .inr (.inr (.inr (.inr (.inr (.inl ⟨rfl, rfl⟩)))))
  next hopen hclose hquote hblank hcolon hcomma =>
  split at h
  · cases h
  · next k hk =>
    split at h
    · cases h
    · next q hq =>
      cases h
      have hend : endsPrimitive c = false := by
        simp only [not_or] at hopen hclose hblank
        simp [endsPrimitive, hclose, hblank, hcolon, hcomma]
      exact .inr (.inr (.inr (.inr (.inr (.inr ⟨k, hk, jsmnPrimitive_pos hend hk, rfl, hq⟩)))))

/-- A token, the `k`-th of `count`, lies before a position, and there are at least as many
tokens behind it as it counts. -/
structure TokenWithin (pos count k : ℕ) (tok : JsmnToken) : Prop where
  start : tok.start ≤ pos
  stop : ∀ e, tok.stop = some e → tok.start ≤ e ∧ e ≤ pos
  size : k + tok.size < count

/-- All tokens lie before a position, and the superior one exists. -/
structure ParserWithin (pos : ℕ) (p : JsmnParser) : Prop where
  each : ∀ k tok, p.tokens[k]? = some tok → TokenWithin pos p.tokens.length k tok
  super : ∀ k, p.toksuper = some k → k < p.tokens.length

theorem TokenWithin.mono {pos pos' count count' k : ℕ} {tok : JsmnToken}
    (h : TokenWithin pos count k tok) (hpos : pos ≤ pos') (hcount : count ≤ count') :
    TokenWithin pos' count' k tok :=
  ⟨h.start.trans hpos, fun e he => ⟨(h.stop e he).1, (h.stop e he).2.trans hpos⟩,
    h.size.trans_le hcount⟩

theorem ParserWithin.mono {pos pos' : ℕ} {p : JsmnParser} (h : ParserWithin pos p)
    (hpos : pos ≤ pos') : ParserWithin pos' p :=
  ⟨fun k tok htok => (h.each k tok htok).mono hpos le_rfl, h.super⟩

theorem ParserWithin.withSuper {pos : ℕ} {p : JsmnParser} (h : ParserWithin pos p)
    {super : Option ℕ} (hsuper : ∀ k, super = some k → k < p.tokens.length) :
    ParserWithin pos { p with toksuper := super } :=
  ⟨h.each, hsuper⟩

/-- A new token counts nothing yet, and the superior one has one more behind it. -/
theorem ParserWithin.add {numTokens pos pos' : ℕ} {p p' : JsmnParser} {tok : JsmnToken}
    (h : ParserWithin pos p) (hpos : pos ≤ pos') (hsize : tok.size = 0)
    (hstart : tok.start ≤ pos') (hstop : ∀ e, tok.stop = some e → tok.start ≤ e ∧ e ≤ pos')
    (hadd : p.add numTokens tok = .ok p') :
    ParserWithin pos' p' ∧ p'.tokens.length = p.tokens.length + 1 := by
  unfold JsmnParser.add at hadd
  split at hadd
  · cases hadd
  have hnew : ∀ k tok', (p.tokens ++ [tok])[k]? = some tok' →
      TokenWithin pos' (p.tokens.length + 1) k tok' ∧
        (k < p.tokens.length → k + (tok'.size + 1) < p.tokens.length + 1) := by
    intro k tok' hk
    rw [List.getElem?_append] at hk
    split at hk
    · have hold := h.each k tok' hk
      exact ⟨hold.mono hpos (Nat.le_succ _), fun _ => by have := hold.size; omega⟩
    · next hge =>
      obtain ⟨hlast, htok⟩ := List.getElem?_eq_some_iff.mp hk
      have hzero : k - p.tokens.length = 0 := by simpa using hlast
      simp only [hzero, List.getElem_cons_zero] at htok
      subst htok
      exact ⟨⟨hstart, hstop, by omega⟩, fun hlt => absurd hlt hge⟩
  cases hsuper : p.toksuper with
  | none =>
    simp only [hsuper] at hadd
    cases hadd
    exact ⟨⟨fun k tok' hk => by simpa using (hnew k tok' hk).1, fun k hk => by simp at hk⟩,
      by simp⟩
  | some super =>
    simp only [hsuper] at hadd
    cases hadd
    have hlt := h.super super hsuper
    refine ⟨⟨fun k tok' hk => ?_, fun k hk => ?_⟩, by simp⟩
    · rw [List.getElem?_modify] at hk
      obtain ⟨old, hold, htok'⟩ := Option.map_eq_some_iff.mp hk
      obtain ⟨hwithin, hroom⟩ := hnew k old hold
      simp only [List.length_modify, List.length_append, List.length_singleton]
      by_cases hsame : super = k
      · rw [if_pos hsame] at htok'
        subst htok'
        exact ⟨hwithin.start, hwithin.stop, hroom (hsame ▸ hlt)⟩
      · rw [if_neg hsame] at htok'
        subst htok'
        exact hwithin
    · cases hk
      simp only [List.length_modify, List.length_append, List.length_singleton]
      omega

/-- A closing bracket ends a token that has begun before it. -/
theorem ParserWithin.close {pos : ℕ} {type : JsmnType} {p p' : JsmnParser}
    (h : ParserWithin pos p) (hclose : p.close type pos = .ok p') : ParserWithin (pos + 1) p' := by
  unfold JsmnParser.close at hclose
  split at hclose
  · cases hclose
  split at hclose
  · cases hclose
  next i hi _ =>
  cases hclose
  refine ⟨fun k tok hk => ?_, fun k hk => ?_⟩
  · rw [List.getElem?_modify] at hk
    obtain ⟨old, hold, htok⟩ := Option.map_eq_some_iff.mp hk
    have hwithin := (h.each k old hold).mono (Nat.le_succ pos) le_rfl
    rw [List.length_modify]
    by_cases hik : i = k
    · rw [if_pos hik] at htok
      subst htok
      refine ⟨hwithin.start, fun e he => ?_, hwithin.size⟩
      cases he
      exact ⟨hwithin.start, le_rfl⟩
    · rw [if_neg hik] at htok
      subst htok
      exact hwithin
  · obtain ⟨tok, htok, -⟩ := lastWhere_eq_some hk
    exact (List.getElem?_eq_some_iff.mp htok).1

theorem ParserWithin.comma {pos : ℕ} {p : JsmnParser} (h : ParserWithin pos p) :
    ParserWithin pos p.comma := by
  unfold JsmnParser.comma
  split
  · exact h
  · split
    · exact h
    · next i hi =>
      obtain ⟨tok, htok, -⟩ := lastWhere_eq_some hi
      refine h.withSuper fun k hk => ?_
      cases hk
      exact (List.getElem?_eq_some_iff.mp htok).1

/-- INTERNAL: One round keeps the tokens within the text that has been read.
SOURCE: jsmn.c:160-290 -/
theorem ParserWithin.step {numTokens pos n : ℕ} {c : Char} {s : Text} {p p' : JsmnParser}
    (h : ParserWithin pos p) (hstep : jsmnStep numTokens pos c s p = .ok (n, p')) :
    ParserWithin (pos + 1 + n) p' ∧ n ≤ s.length := by
  rcases jsmnStep_cases hstep with ⟨type, q, hq, rfl, rfl⟩ | ⟨type, hclose, rfl⟩ |
    ⟨k, hk, rfl, hadd⟩ | ⟨rfl, rfl⟩ | ⟨rfl, rfl⟩ | ⟨rfl, rfl⟩ | ⟨k, hk, hpos, rfl, hadd⟩
  · obtain ⟨hwithin, hlen⟩ := h.add (Nat.le_succ pos) rfl (Nat.le_succ pos) (by simp) hq
    refine ⟨hwithin.withSuper fun k hk => ?_, Nat.zero_le _⟩
    cases hk
    omega
  · exact ⟨h.close hclose, Nat.zero_le _⟩
  · have hstart : pos + 1 ≤ pos + 1 + (k + 1) := Nat.le_add_right _ _
    refine ⟨(h.add (by omega) rfl hstart (fun e he => ?_) hadd).1, jsmnString_lt hk⟩
    cases he
    exact ⟨by simp, by omega⟩
  · exact ⟨h.mono (Nat.le_succ pos), Nat.zero_le _⟩
  · refine ⟨(h.mono (Nat.le_succ pos)).withSuper fun k hk => ?_, Nat.zero_le _⟩
    split at hk
    · cases hk
    · next hne =>
      cases hk
      have := List.length_pos_iff.mpr hne
      omega
  · exact ⟨h.comma.mono (Nat.le_succ pos), Nat.zero_le _⟩
  · have hle := jsmnPrimitive_le hk
    rw [List.length_cons] at hle
    have hstart : pos ≤ pos + 1 + (k - 1) := by omega
    refine ⟨(h.add hstart rfl hstart (fun e he => ?_) hadd).1, by omega⟩
    cases he
    exact ⟨by simp, by omega⟩

/-- The run of the tokenizer keeps the tokens within the text. -/
theorem ParserWithin.run {numTokens pos : ℕ} {s : Text} {p p' : JsmnParser}
    (h : ParserWithin pos p) (hrun : jsmnFrom numTokens pos s p = .ok p') :
    ParserWithin (pos + s.length) p' := by
  induction hlen : s.length using Nat.strongRecOn generalizing pos s p with
  | ind len ih =>
    cases s with
    | nil =>
      cases hrun
      subst hlen
      exact h
    | cons c s =>
      cases hstep : jsmnStep numTokens pos c s p with
      | error e => simp [jsmnFrom, jsmnLoop, hstep] at hrun
      | ok r =>
        obtain ⟨hwithin, hn⟩ := h.step hstep
        rw [jsmnFrom_cons hstep] at hrun
        have hrest := ih _ (by rw [← hlen]; simp) hwithin hrun rfl
        have hsum : pos + 1 + r.1 + (s.drop r.1).length = pos + len := by
          rw [← hlen, List.length_drop, List.length_cons]
          omega
        rwa [hsum] at hrest

/-- INTERNAL: The tokens of a text lie within it, none is open, and behind each there are as
many tokens as it counts.
SOURCE: jsmn.c:153-300 -/
theorem jsmnParse_bounds {numTokens : ℕ} {js : Text} {toks : List JsmnToken}
    (h : jsmnParse numTokens js = .ok toks) {k : ℕ} {tok : JsmnToken}
    (htok : toks[k]? = some tok) :
    k + tok.size < toks.length ∧
      ∃ e, tok.stop = some e ∧ tok.start ≤ e ∧ e ≤ js.length := by
  rw [jsmnParse_eq] at h
  cases hrun : jsmnFrom numTokens 0 js {} with
  | error e => simp [hrun] at h
  | ok p =>
    simp only [hrun] at h
    split at h
    · cases h
    · next hopen =>
      cases h
      have hstart : ParserWithin 0 {} := ⟨by simp, by simp⟩
      have hwithin := (hstart.run hrun).each k tok htok
      have hclosed : tok.isOpen = false := by
        simp only [List.any_eq_true, not_exists, not_and, Bool.not_eq_true] at hopen
        exact hopen tok (List.mem_of_getElem? htok)
      obtain ⟨e, he⟩ := Option.isSome_iff_exists.mp
        (show tok.stop.isSome = true by simpa [JsmnToken.isOpen] using hclosed)
      obtain ⟨hle, hend⟩ := hwithin.stop e he
      exact ⟨hwithin.size, e, he, hle, by omega⟩

/-- The text of a token is part of the whole text. -/
theorem not_mem_text {js : Text} (hjs : '\x00' ∉ js) (tok : JsmnToken) :
    '\x00' ∉ tok.text js :=
  fun h => hjs (List.mem_of_mem_drop (List.mem_of_mem_take h))

end WifiCat.Analysis
