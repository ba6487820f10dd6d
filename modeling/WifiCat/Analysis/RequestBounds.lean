import WifiCat.Analysis.RequestReading

/-!
# Where a request is stored

`httpdReadRequest` stores a line of 10240 characters with its terminator behind the buffer, and the
decoder of credentials bounds what it reads, but not what it stores.  `readRequest_inside_iff` says
for which requests nothing is stored outside the arrays; what the decoder reads ahead of a last
group that is not complete is no part of it.
-/

set_option autoImplicit false

namespace WifiCat.Analysis

open Scan PieceReader

variable {st : HttpdReading} {r : Reader Char}

/-! ## The decoder -/

/-- INTERNAL: the groups of the decoder's loop are three bytes each, complete or not.
SOURCE: protocol.c:241-250 -/
theorem decodeLoop_spec (n off : ℕ) (bufin : Text) (out : Buffer Char) :
    (httpdDecodeLoop n off bufin out).bytes.length = out.bytes.length ∧
      (httpdDecodeLoop n off bufin out).outside =
        (out.outside || decide (0 < n ∧ out.bytes.length < off + (n + 3) / 4 * 3)) := by
  induction n using Nat.strongRecOn generalizing off bufin out with
  | ind n ih =>
    rw [httpdDecodeLoop]
    split
    · next hn => simp [hn]
    · next hn =>
      obtain ⟨hlength, houtside⟩ := ih (n - 4) (by omega) (off + 3) (bufin.drop 4) _
      rw [hlength, houtside]
      simp only [Buffer.length_write, Buffer.outside_write, List.length_singleton, true_and]
      have hgroups : (n + 3) / 4 = (n - 4 + 3) / 4 + 1 ∨ n < 4 ∧ (n + 3) / 4 = 1 := by omega
      cases out.outside
      · simp only [Bool.false_or, ← Bool.decide_or]
        apply decide_eq_decide.mpr
        omega
      · rfl

/-- INTERNAL: the decoder stays in an array of 100 bytes for at most 132 characters.
SOURCE: protocol.c:185-264 -/
theorem decode_outside (bufcoded : Text) (out : Buffer Char) (h : out.bytes.length = 100) :
    (httpdDecode bufcoded out 100).outside =
      (out.outside || decide (132 < ((bufcoded.dropWhile fun c => c = ' ' ∨ c = '\t').takeWhile
        fun c => pr2six c ≤ 63).length)) := by
  unfold httpdDecode
  simp only []
  generalize hrun : (List.takeWhile (fun c => decide (pr2six c ≤ 63))
    (List.dropWhile (fun c => decide (c = ' ' ∨ c = '\t')) bufcoded)).length = n
  rw [Buffer.outside_write, (decodeLoop_spec _ _ _ _).1, (decodeLoop_spec _ _ _ _).2, h,
    List.length_singleton]
  cases out.outside
  · simp only [Bool.false_or, ← Bool.decide_or]
    apply decide_eq_decide.mpr
    by_cases hlong : (n + 3) / 4 * 3 > 100
    · rw [if_pos hlong]
      omega
    · rw [if_neg hlong]
      split_ifs <;> omega
  · simp

/-! ## The headers -/

/-- The characters of base 64 that a line offers as a credential.
SOURCE: api.c:483-496, protocol.c:223-233 -/
def credential (line : Text) : Text :=
  if startsCase (cString line) "Authorization: ".toList &&
      "Basic ".toList.isPrefixOf (line.drop 15) then
    ((line.drop 21).dropWhile fun c => c = ' ' ∨ c = '\t').takeWhile fun c => pr2six c ≤ 63
  else []

/-- A text without a NUL starts a line when it starts the memory with the line. -/
theorem isPrefixOf_nul {w : Text} (hw : '\x00' ∉ w) (line rest : Text) :
    w.isPrefixOf (line ++ '\x00' :: rest) = w.isPrefixOf line := by
  induction w generalizing line with
  | nil => simp
  | cons c w ih =>
    rw [List.mem_cons, not_or] at hw
    cases line with
    | nil => simp [List.isPrefixOf, Ne.symm hw.1]
    | cons d line => simp [List.isPrefixOf, ih hw.2 line]

/-- A run of characters ends before a NUL. -/
theorem takeWhile_nul {q : Char → Bool} (hq : q '\x00' = false) (line rest : Text) :
    (line ++ '\x00' :: rest).takeWhile q = line.takeWhile q := by
  induction line with
  | nil => simp [hq]
  | cons c line ih => rw [List.cons_append, List.takeWhile_cons, List.takeWhile_cons, ih]

/-- So does one behind blanks. -/
theorem run_nul {p q : Char → Bool} (hp : p '\x00' = false) (hq : q '\x00' = false)
    (line rest : Text) :
    ((line ++ '\x00' :: rest).dropWhile p).takeWhile q = (line.dropWhile p).takeWhile q := by
  induction line with
  | nil => simp [hp, hq]
  | cons c line ih =>
    rw [List.cons_append, List.dropWhile_cons, List.dropWhile_cons]
    split
    · exact ih
    · exact takeWhile_nul hq (c :: line) rest

theorem httpdHeader_buf (st : HttpdReading) : (httpdHeader st).buf = st.buf := by
  have hauth : (httpdAuthorization st).buf = st.buf := by
    unfold httpdAuthorization
    split <;> rfl
  dsimp only [httpdHeader]
  split <;> split <;> first | exact hauth | rfl

theorem length_of_startsCase {line header : Text} (h : startsCase line header = true) :
    header.length ≤ line.length := by
  have heq := congrArg List.length ((sameCase_iff _ _).mp h)
  rw [List.length_map, List.length_map, List.length_take] at heq
  omega

/-- INTERNAL: what a header line stores, when it has a terminator.
SOURCE: api.c:483-541 -/
theorem httpdHeader_outside (st : HttpdReading) (line rest : Text) (o : Bool) :
    (httpdHeader { st with buf := ⟨line ++ '\x00' :: rest, o⟩ }).authOutside =
      (st.authOutside || decide (132 < (credential line).length)) := by
  have hhost : ∀ st : HttpdReading, (httpdHeader st).authOutside =
      (if startsCase (cString st.buf.bytes) "Authorization: ".toList then httpdAuthorization st
        else st).authOutside := by
    intro st
    dsimp only [httpdHeader]
    split <;> split <;> rfl
  rw [hhost]
  dsimp only
  rw [cString_append_nul]
  unfold credential
  by_cases hauth : startsCase (cString line) "Authorization: ".toList = true
  · have hlen : 15 ≤ line.length :=
      (length_of_startsCase hauth).trans (List.takeWhile_prefix _).length_le
    have hdrop : (line ++ '\x00' :: rest).drop 15 = line.drop 15 ++ '\x00' :: rest :=
      List.drop_append_of_le_length hlen
    rw [if_pos hauth, hauth, Bool.true_and]
    unfold httpdAuthorization
    dsimp only
    rw [hdrop, isPrefixOf_nul (by decide)]
    by_cases hbasic : "Basic ".toList.isPrefixOf (line.drop 15) = true
    · have hlen' : 21 ≤ line.length := by
        have hle := (List.isPrefixOf_iff_prefix.mp hbasic).length_le
        rw [List.length_drop] at hle
        have hsix : "Basic ".toList.length = 6 := rfl
        omega
      rw [if_pos hbasic, if_pos hbasic]
      dsimp only
      rw [decode_outside _ _ (List.length_replicate ..), List.drop_append_of_le_length hlen',
        run_nul (by decide) (by decide), Bool.false_or]
    · rw [if_neg hbasic, if_neg hbasic]
      simp
  · rw [if_neg hauth, eq_false_of_ne_true hauth]
    simp

/-- The lines behind the first one, up to an empty one. -/
def headersAhead (s : Text) : List Text :=
  match _h : lineAhead HTTP_MAX_LEN s with
  | none => []
  | some (line, rest) => if cString line = [] then [line] else line :: headersAhead rest
termination_by s.length
decreasing_by exact lineAhead_shorter _h

theorem headersAhead_of_none {s : Text} (h : lineAhead HTTP_MAX_LEN s = none) :
    headersAhead s = [] := by
  rw [headersAhead]
  split
  · rfl
  · next hsome => rw [h] at hsome; cases hsome

theorem headersAhead_of_some {s line rest : Text}
    (h : lineAhead HTTP_MAX_LEN s = some (line, rest)) :
    headersAhead s = if cString line = [] then [line] else line :: headersAhead rest := by
  rw [headersAhead]
  split
  · next hnone => rw [h] at hnone; cases hnone
  · next line' rest' hsome =>
    rw [h, Option.some.injEq, Prod.mk.injEq] at hsome
    obtain ⟨rfl, rfl⟩ := hsome
    rfl

/-- A header line and its credential fit their arrays. -/
def HeaderFits (line : Text) : Prop :=
  line.length < HTTP_MAX_LEN ∧ (credential line).length ≤ 132

instance (line : Text) : Decidable (HeaderFits line) := inferInstanceAs (Decidable (_ ∧ _))

/-- INTERNAL: the header lines stay in their arrays exactly when each of them fits.  A line that
fills the buffer sets the mark whatever follows.
SOURCE: api.c:401-541 -/
theorem readHeaders_inside_iff (st : HttpdReading) (r : Reader Char)
    (h : st.buf.bytes.length = HTTP_MAX_LEN) :
    ((httpdReadHeaders st r).buf.outside || (httpdReadHeaders st r).authOutside) = false ↔
      (st.buf.outside || st.authOutside) = false ∧
        ∀ line ∈ headersAhead r.stream, HeaderFits line := by
  induction hlen : r.stream.length using Nat.strongRecOn generalizing st r with
  | ind n ih =>
    obtain ⟨⟨stale, o⟩, req, a⟩ := st
    have h : stale.length = HTTP_MAX_LEN := h
    rcases readLine_cases h o r with ⟨hnone, hahead⟩ | ⟨line, r', hsome, hahead⟩
    · rw [readHeaders_of_none hnone, headersAhead_of_none hahead]
      simp
    · have hroom : line.length ≤ stale.length := h ▸ lineAhead_length hahead (by decide)
      rw [readHeaders_of_some hsome, headersAhead_of_some hahead, cString_lineBuffer]
      by_cases hempty : cString line = []
      · have hcred : credential line = [] := by
          have hstart : startsCase [] "Authorization: ".toList = false := by decide
          rw [credential, hempty, hstart, Bool.false_and, if_neg Bool.false_ne_true]
        simp only [if_pos hempty, lineBuffer_outside, List.mem_singleton, forall_eq, HeaderFits,
          hcred, List.length_nil, h, Bool.or_eq_false_iff, decide_eq_false_iff_not, not_le,
          Nat.zero_le, and_true]
        exact and_right_comm
      · rw [if_neg hempty, if_neg hempty,
          ih _ (hlen ▸ lineAhead_shorter hahead) _ r' ?_ rfl, List.forall_mem_cons]
        · rw [← and_assoc, httpdHeader_buf]
          refine and_congr_left fun _ => ?_
          by_cases hfull : line.length < stale.length
          · have hbuf : lineBuffer stale o line =
                ⟨line ++ '\x00' :: stale.drop (line.length + 1), o⟩ := if_pos hfull
            rw [hbuf, httpdHeader_outside]
            simp only [HeaderFits, ← h, hfull, true_and, Bool.or_eq_false_iff,
              decide_eq_false_iff_not, not_lt, and_assoc]
          · simp only [lineBuffer_outside, HeaderFits, ← h, hfull, not_lt.mp hfull, decide_true,
              Bool.or_true, Bool.true_or, Bool.true_eq_false, false_and, and_false]
        · rw [httpdHeader_buf]
          exact (lineBuffer_length o hroom).trans h

/-! ## The first line -/

/-- The name of the method that a first line starts with. -/
def methodName (line : Text) : Text := line.takeWhile Char.isAlpha

/-- Behind a first line that is only the name of a method, the buffer holds a word that ends. -/
def StaleWord (stack line : Text) : Prop :=
  ∃ c ∈ (stack.drop (line.length + 1)).dropWhile (· = ' '), c = ' ' ∨ c = '\x00'

instance (stack line : Text) : Decidable (StaleWord stack line) :=
  inferInstanceAs (Decidable (∃ c ∈ _, _))

theorem mem_dropWhile {α : Type} {p : α → Bool} {l : List α} {a : α} (h : a ∈ l) (hp : p a = false) :
    a ∈ l.dropWhile p := by
  rw [← List.takeWhile_append_dropWhile (p := p) (l := l), List.mem_append] at h
  refine h.resolve_left fun htake => ?_
  rw [List.mem_takeWhile_imp htake] at hp
  cases hp

/-- A word that takes all there is has no end. -/
theorem takeWhile_length_eq {α : Type} {p : α → Bool} {l : List α} :
    (l.takeWhile p).length = l.length ↔ ∀ a ∈ l, p a = true := by
  rw [← List.takeWhile_eq_self_iff]
  exact ⟨(List.takeWhile_prefix p).eq_of_length, congrArg List.length⟩

theorem methodName_clean (line : Text) : '\x00' ∉ methodName line := fun h => by
  have halpha := List.mem_takeWhile_imp h
  revert halpha
  decide

theorem requestLine_length (st : HttpdReading) :
    (httpdRequestLine st).2.buf.bytes.length = st.buf.bytes.length := by
  dsimp only [httpdRequestLine]
  split <;> simp only [Buffer.length_write]

/-- What was stored outside before the first line stays so. -/
theorem requestLine_outside {st : HttpdReading} (h : st.buf.outside = true) :
    (httpdRequestLine st).2.buf.outside = true := by
  dsimp only [httpdRequestLine]
  split <;> simp only [Buffer.outside_write, h, Bool.true_or]

/-- INTERNAL: a first line that fits: the name of its method, the method, and where the end of its
path is stored.
SOURCE: api.c:407-439 -/
theorem requestLine_spec {stack line : Text} (h : line.length < stack.length) :
    let first := httpdRequestLine { buf := lineBuffer stack false line }
    first.2.request.method = httpdMethod (methodName line) ∧ first.2.authOutside = false ∧
      (first.2.buf.outside = false ↔ (httpdMethod (methodName line) ≠ none →
        methodName line = line → StaleWord stack line)) := by
  set stale := stack.drop (line.length + 1) with hstale
  have hbuf : lineBuffer stack false line = ⟨line ++ '\x00' :: stale, false⟩ := if_pos h
  have hname : (line ++ '\x00' :: stale).takeWhile Char.isAlpha = methodName line :=
    takeWhile_nul (by decide) line stale
  have hletters : (methodName line).length ≤ line.length := (List.takeWhile_prefix _).length_le
  have hlength : (line ++ '\x00' :: stale).length = stack.length := by
    rw [← lineBuffer_length false h.le, hbuf]
  have htake : (line ++ '\x00' :: stale).take (methodName line).length = methodName line :=
    (List.prefix_iff_eq_take.mp (hname ▸ List.takeWhile_prefix _)).symm
  -- the name, with the terminator that is written behind it
  have hwrite : Buffer.write ⟨line ++ '\x00' :: stale, false⟩ (methodName line).length ['\x00'] =
      ⟨methodName line ++ '\x00' :: (line ++ '\x00' :: stale).drop ((methodName line).length + 1),
        false⟩ := by
    rw [Buffer.write_eq (by rw [List.length_singleton]; dsimp only; omega)]
    dsimp only
    rw [htake, List.length_singleton, List.append_assoc, List.singleton_append]
  have hdrop : (methodName line ++ '\x00' ::
      (line ++ '\x00' :: stale).drop ((methodName line).length + 1)).drop
        ((methodName line).length + 1) =
      (line ++ '\x00' :: stale).drop ((methodName line).length + 1) := by
    rw [List.drop_append, List.drop_eq_nil_of_le (Nat.le_succ _)]
    simp
  have hlength' : (methodName line ++ '\x00' ::
      (line ++ '\x00' :: stale).drop ((methodName line).length + 1)).length = stack.length := by
    simp only [List.length_append, List.length_cons, List.length_drop] at hlength ⊢
    omega
  dsimp only
  unfold httpdRequestLine
  dsimp only
  rw [hbuf, hname, hwrite]
  dsimp only
  rw [cString_append_nul, cString_of_not_mem (methodName_clean line)]
  cases hmethod : httpdMethod (methodName line) with
  | none => exact ⟨rfl, rfl, by simp⟩
  | some method =>
    refine ⟨rfl, rfl, ?_⟩
    dsimp only
    rw [hdrop, Buffer.outside_write, hlength', Bool.false_or, decide_eq_false_iff_not,
      List.length_singleton]
    set cp := ((line ++ '\x00' :: stale).drop ((methodName line).length + 1)).dropWhile (· = ' ')
      with hcp
    have hcple : cp.length ≤ stack.length := by
      refine (List.dropWhile_sublist _).length_le.trans ?_
      rw [List.length_drop, hlength]
      omega
    have hword : (cp.takeWhile fun c => c ≠ ' ' ∧ c ≠ '\x00').length ≤ cp.length :=
      (List.takeWhile_prefix _).length_le
    have hiff : ¬stack.length < stack.length - cp.length +
        (cp.takeWhile fun c => c ≠ ' ' ∧ c ≠ '\x00').length + 1 ↔
          ∃ c ∈ cp, c = ' ' ∨ c = '\x00' := by
      have hall := takeWhile_length_eq (p := fun c => decide (c ≠ ' ' ∧ c ≠ '\x00')) (l := cp)
      constructor
      · intro hlt
        by_contra hnone
        push Not at hnone
        have heq := hall.mpr fun c hc => decide_eq_true (hnone c hc)
        omega
      · rintro ⟨c, hc, hend⟩ hlt
        have htrue := of_decide_eq_true (hall.mp (by omega) c hc)
        tauto
    rw [hiff]
    by_cases hwhole : methodName line = line
    · rw [hwhole, List.drop_append, List.drop_eq_nil_of_le (Nat.le_succ _)] at hcp
      have hcp' : cp = stale.dropWhile (· = ' ') := by simpa using hcp
      simp [hwhole, hcp', StaleWord, hstale]
    · have hlt : (methodName line).length < line.length := by
        refine lt_of_le_of_ne hletters fun heq => hwhole ?_
        exact (List.takeWhile_prefix _).eq_of_length heq
      refine iff_of_true ⟨'\x00', ?_, Or.inr rfl⟩ fun _ h => absurd h hwhole
      refine mem_dropWhile ?_ (by decide)
      rw [List.drop_append_of_le_length (by omega)]
      simp

/-! ## The request -/

/-- Everything that is read of a request fits its array. -/
def RequestFits (stack s : Text) : Prop :=
  ∀ line rest, lineAhead HTTP_MAX_LEN s = some (line, rest) →
    line.length < HTTP_MAX_LEN ∧
      (httpdMethod (methodName line) ≠ none →
        (methodName line = line → StaleWord stack line) ∧
          ∀ header ∈ headersAhead rest, HeaderFits header)

/-- **Reading a request stores inside its arrays** exactly when every line it reads is shorter than
10240 characters, every credential it decodes has at most 132, and behind a first line that is
only the name of a method the stack happens to hold a word that ends.
SOURCE: api.c:381-612, protocol.c:98-133, 185-264 -/
theorem readRequest_inside_iff (stack : Text) (h : stack.length = HTTP_MAX_LEN)
    (r : Reader Char) :
    (httpdReadRequest stack r).outside = false ↔ RequestFits stack r.stream := by
  unfold httpdReadRequest RequestFits
  dsimp only
  rcases readLine_cases h false r with ⟨hnone, hahead⟩ | ⟨line, r', hsome, hahead⟩
  · rw [hnone, hahead]
    simp [HttpdReading.finish]
  · have hroom : line.length ≤ stack.length := h ▸ lineAhead_length hahead (by decide)
    have hreads : (∀ line' rest, lineAhead HTTP_MAX_LEN r.stream = some (line', rest) →
        line'.length < HTTP_MAX_LEN ∧ (httpdMethod (methodName line') ≠ none →
          (methodName line' = line' → StaleWord stack line') ∧
            ∀ header ∈ headersAhead rest, HeaderFits header)) ↔
        line.length < HTTP_MAX_LEN ∧ (httpdMethod (methodName line) ≠ none →
          (methodName line = line → StaleWord stack line) ∧
            ∀ header ∈ headersAhead r'.stream, HeaderFits header) := by
      constructor
      · exact fun hall => hall line r'.stream hahead
      · intro hline line' rest heq
        rw [hahead, Option.some.injEq, Prod.mk.injEq] at heq
        obtain ⟨rfl, rfl⟩ := heq
        exact hline
    rw [hreads, hsome]
    dsimp only
    by_cases hfits : line.length < stack.length
    · obtain ⟨hmethod, hauth, hinside⟩ := requestLine_spec hfits
      have hlength := (requestLine_length { buf := lineBuffer stack false line }).trans
        (lineBuffer_length false hroom)
      rw [hmethod]
      split
      · next hnone =>
        rw [hinside, hnone]
        simp [h ▸ hfits]
      · next hmethod =>
        have hheaders := readHeaders_inside_iff _ r' (hlength.trans h)
        rw [HttpdReading.finish]
        dsimp only
        rw [hheaders, Bool.or_eq_false_iff, hinside]
        simp [hauth, h ▸ hfits, hmethod]
    · -- the terminator is behind the buffer already
      have houtside : (lineBuffer stack false line).outside = true := by
        rw [lineBuffer_outside, decide_eq_true (not_lt.mp hfits), Bool.or_true]
      have hstays : (httpdRequestLine { buf := lineBuffer stack false line }).2.buf.outside = true :=
        requestLine_outside houtside
      have hlength := requestLine_length { buf := lineBuffer stack false line }
      refine iff_of_false ?_ fun hline => hfits (h ▸ hline.1)
      split
      · exact fun hfalse => Bool.false_ne_true (hfalse.symm.trans hstays)
      · intro hfalse
        have hheaders := (readHeaders_inside_iff _ r'
          (hlength.trans ((lineBuffer_length false hroom).trans h))).mp hfalse
        rw [hstays] at hheaders
        exact Bool.false_ne_true hheaders.1.symm

/-- A request with credentials, and its lines behind the first one. -/
def credentialLines : Text := "Authorization: Basic dTpw\r\nHost: a\r\n\r\n".toList

/-- It stays inside the arrays, on a stack of NULs. -/
theorem readRequest_inside_iff_sample :
    (httpdReadRequest (List.replicate HTTP_MAX_LEN '\x00')
      ⟨[], ["GET / HTTP/1.0\r\n".toList ++ credentialLines]⟩).outside = false := by
  refine (readRequest_inside_iff _ (List.length_replicate ..) _).mpr fun line rest h => ?_
  have hfirst : lineAhead HTTP_MAX_LEN ("GET / HTTP/1.0\r\n".toList ++ credentialLines) =
      some ("GET / HTTP/1.0".toList, credentialLines) := by decide
  have hheaders : headersAhead credentialLines =
      ["Authorization: Basic dTpw".toList, "Host: a".toList, []] := by
    rw [headersAhead_of_some (show lineAhead _ _ = some ("Authorization: Basic dTpw".toList,
        "Host: a\r\n\r\n".toList) by decide), if_neg (by decide),
      headersAhead_of_some (show lineAhead _ _ = some ("Host: a".toList, "\r\n".toList) by decide),
      if_neg (by decide), headersAhead_of_some (show lineAhead _ _ = some ([], []) by decide)]
    rfl
  rw [show Reader.stream _ = _ from List.append_nil _] at h
  obtain ⟨rfl, rfl⟩ := Prod.mk.inj (Option.some.inj (hfirst.symm.trans h))
  rw [hheaders]
  exact ⟨by decide, fun _ => ⟨fun h => absurd h (by decide), by decide⟩⟩

end WifiCat.Analysis
