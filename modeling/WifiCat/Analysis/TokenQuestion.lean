import WifiCat.Analysis.ServerApproval
import WifiCat.Library.Query

/-!
# The question about a token

The token is written into the request as the client sent it, into a buffer that keeps 127
characters of the query.  `readQuestion` is how the auth server reads the request: one
request line and the two headers, and the pairs of the query string.
-/

set_option autoImplicit false

namespace WifiCat.Analysis

open Scan

/-! ## Reading a question -/

/-- What follows the request line, up to the name of the host.
SOURCE: centerserver.c:170-173 -/
def agentHeader : Text := "\r\nUser-Agent: WiFiCat ".toList ++ VERSION ++ "\r\nHost: ".toList

/-- The `User-Agent` and `Host` headers, and nothing else. -/
def isHeaders (rest : Text) : Bool :=
  agentHeader.isPrefixOf rest &&
    (rest.drop agentHeader.length).dropWhile (fun c => !isBreak c) == CRLFCRLF

/-- The pairs that a request asks about: the request line ends at the first line break, and is
cut at the blanks; the query string is what follows the first `?`. -/
def readQuestion (request : Text) : Option (List (Text × Text)) :=
  if isHeaders (request.dropWhile fun c => !isBreak c) then
    match fields ' ' (request.takeWhile fun c => !isBreak c) with
    | [method, target, version] =>
      if method = "GET".toList ∧ version = "HTTP/1.0".toList then
        (strstrAfter ['?'] target).bind Query.pairs
      else none
    | _ => none
  else none

/-- The request line. -/
def requestLine (path query : Text) : Text :=
  "GET".toList ++ ' ' :: (path ++ query ++ ' ' :: "HTTP/1.0".toList)

/-- The pairs of a question. -/
def questionPairs (uid : ℤ) (token mac : Text) : List (Text × Text) :=
  [("uid".toList, decimal uid), ("token".toList, token), ("mac".toList, mac)]

/-- The request that asks about a token.
SOURCE: http.c:215-217, centerserver.c:168-178 -/
def tokenRequest (server : AuthServer) (ip token mac : Text) : Text :=
  httpRequest ip server.tokenVerifyPath (tokenQuery server.uid token mac) VERSION MAX_BUF

/-! ## Characters -/

/-- The characters that have a meaning in a request. -/
def requestSigns : List Char := ['&', '=', '%', ' ', '?', '\r', '\n', '\x00']

/-- A text without them. -/
def PlainChars (w : Text) : Prop := ∀ c ∈ w, c ∉ requestSigns

theorem PlainChars.not_mem {w : Text} (h : PlainChars w) {c : Char} (hc : c ∈ requestSigns) :
    c ∉ w := fun hmem => h c hmem hc

theorem PlainChars.plain {w : Text} (h : PlainChars w) : Query.Plain w :=
  ⟨h.not_mem (by decide), h.not_mem (by decide),
    Query.percentDecode_of_not_mem (h.not_mem (by decide))⟩

theorem PlainChars.not_break {w : Text} (h : PlainChars w) : ∀ c ∈ w, isBreak c = false := by
  intro c hc
  have hsign := h c hc
  simp only [requestSigns, List.mem_cons, not_or] at hsign
  simp [isBreak, hsign.2.2.2.2.2.1, hsign.2.2.2.2.2.2.1]

/-- INTERNAL: characters of a set that none of them belongs to. -/
theorem plainChars_of_all {p : Char → Bool} (hp : ∀ c ∈ requestSigns, p c = false) {w : Text}
    (h : ∀ c ∈ w, p c = true) : PlainChars w := by
  intro c hc hsign
  have hfalse := hp c hsign
  rw [h c hc] at hfalse
  cases hfalse

theorem plainChars_toDigits (n : ℕ) : PlainChars (Nat.toDigits 10 n) :=
  plainChars_of_all (p := Char.isDigit) (by decide) fun _ hc =>
    Nat.isDigit_of_mem_toDigits (by decide) (by decide) hc

theorem PlainChars.cons {c : Char} {w : Text} (hc : c ∉ requestSigns) (hw : PlainChars w) :
    PlainChars (c :: w) := by
  intro d hd
  rcases List.mem_cons.mp hd with rfl | hd
  · exact hc
  · exact hw d hd

theorem PlainChars.append {v w : Text} (hv : PlainChars v) (hw : PlainChars w) :
    PlainChars (v ++ w) := by
  intro c hc
  rcases List.mem_append.mp hc with hc | hc
  · exact hv c hc
  · exact hw c hc

/-- INTERNAL: a number is written with a sign and digits. -/
theorem mem_decimal {n : ℤ} {c : Char} (h : c ∈ decimal n) : c = '-' ∨ c.isDigit = true := by
  have hdigits : ∀ m : ℕ, c ∈ Nat.toDigits 10 m → c.isDigit = true := fun m hc =>
    Nat.isDigit_of_mem_toDigits (by decide) (by decide) hc
  cases n with
  | ofNat n =>
    have htext : decimal (Int.ofNat n) = Nat.toDigits 10 n := by
      simp [decimal, toString, Int.repr, Nat.toList_repr]
    rw [htext] at h
    exact Or.inr (hdigits n h)
  | negSucc n =>
    have htext : decimal (Int.negSucc n) = '-' :: Nat.toDigits 10 (n + 1) := by
      simp [decimal, toString, Int.repr, Nat.toList_repr]
    rw [htext, List.mem_cons] at h
    exact h.imp_right (hdigits (n + 1))

/-- INTERNAL: a number is written in plain characters. -/
theorem decimal_plain (n : ℤ) : PlainChars (decimal n) :=
  plainChars_of_all (p := fun c => c == '-' || c.isDigit) (by decide) fun _ hc => by
    simpa using mem_decimal hc

/-- INTERNAL: an address is written in plain characters, at most fifteen of them. -/
theorem inetNtoa_plain (a : InAddr) : PlainChars (inetNtoa a) ∧ (inetNtoa a).length ≤ 15 := by
  have hoctet : ∀ n : Fin 256, (Nat.toDigits 10 n).length ≤ 3 := fun n =>
    (Nat.length_toDigits_le_iff (by decide) (by decide)).mpr (by omega)
  obtain ⟨a₁, a₂, a₃, a₄⟩ := a
  constructor
  · have hdot : ∀ n w, PlainChars w → PlainChars (Nat.toDigits 10 n ++ '.' :: w) := fun n w hw =>
      (plainChars_toDigits n).append (hw.cons (by decide))
    simp only [inetNtoa, List.append_assoc, List.cons_append]
    exact hdot _ _ (hdot _ _ (hdot _ _ (plainChars_toDigits _)))
  · have h₁ := hoctet a₁
    have h₂ := hoctet a₂
    have h₃ := hoctet a₃
    have h₄ := hoctet a₄
    simp only [inetNtoa, List.length_append, List.length_cons]
    omega

/-- INTERNAL: a MAC address of the ARP table is written in plain characters.
SOURCE: firewall.c:108 -/
theorem arpGet_plain {arpTable ip mac : Text} (h : arpGet arpTable ip = some mac) :
    PlainChars mac := by
  have hscan : ∀ n s, arpScan ip n s = some mac → ∀ c ∈ mac, isMacChar c = true := by
    intro n
    induction n with
    | zero => rintro s ⟨⟩
    | succ n ih =>
      intro s hs
      unfold arpScan at hs
      split at hs
      · cases hs
      · next ip' mac' rest hentry =>
        split at hs
        · obtain rfl := Option.some.inj hs
          simp only [arpEntry, bind, Option.bind_eq_some_iff, pure, Option.some.injEq,
            Prod.mk.injEq] at hentry
          obtain ⟨r₁, -, s₁, -, s₂, -, r₂, hset, ⟨-, rfl⟩, -⟩ := hentry
          exact (set_eq_some hset).2.2.2
        · exact ih rest hs
  exact plainChars_of_all (p := isMacChar) (by decide) (hscan _ _ h)

/-! ## The shape of a request -/

/-- INTERNAL: the query is the pairs without encoding, cut after 126 characters.
SOURCE: http.c:215-216 -/
theorem tokenQuery_eq (uid : ℤ) (token mac : Text) :
    tokenQuery uid token mac =
      '?' :: (Query.unpairs (questionPairs uid token mac)).take 126 := by
  have hjoin : "?uid=".toList ++ decimal uid ++ "&token=".toList ++ token ++ "&mac=".toList ++ mac =
      '?' :: Query.unpairs (questionPairs uid token mac) := by
    simp [Query.unpairs, questionPairs, Query.unpair, unfields, List.intercalate_cons_cons]
  rw [tokenQuery, hjoin]
  rfl

/-- INTERNAL: the pieces a request is put together from. -/
theorem request_join {get get' version version' newline path query agent number host ip : Text}
    (hget : get' = get ++ [' ']) (hversion : version' = ' ' :: version ++ newline) :
    get' ++ path ++ query ++ version' ++ agent ++ number ++ newline ++ host ++ ip ++ newline ++
        newline =
      get ++ ' ' :: (path ++ query ++ ' ' :: version) ++
        ((newline ++ agent ++ number ++ newline ++ host) ++ ip ++ (newline ++ newline)) := by
  subst hget hversion
  simp only [List.append_assoc, List.cons_append, List.nil_append]

/-- INTERNAL: a request that fits its buffer is a request line and the headers.
SOURCE: centerserver.c:168-178 -/
theorem httpRequest_eq {ip path query : Text} {bufLen : ℕ}
    (h : path.length + query.length + ip.length + 60 ≤ bufLen) :
    httpRequest ip path query VERSION bufLen =
      requestLine path query ++ (agentHeader ++ ip ++ CRLFCRLF) := by
  rw [httpRequest, @request_join "GET".toList _ "HTTP/1.0".toList _ "\r\n".toList _ _ _ _ _ _
    (by decide) (by decide)]
  have hagent : "\r\n".toList ++ "User-Agent: WiFiCat ".toList ++ VERSION ++ "\r\n".toList ++
      "Host: ".toList = agentHeader := by decide
  rw [hagent]
  refine List.take_of_length_le ?_
  have hagent : agentHeader.length = 33 := by decide
  have hnewline : "\r\n".toList ++ "\r\n".toList = CRLFCRLF := by decide
  have hend : CRLFCRLF.length = 4 := by decide
  have hget : "GET".toList.length = 3 := by decide
  have hversion : "HTTP/1.0".toList.length = 8 := by decide
  rw [hnewline]
  simp only [List.length_append, List.length_cons, hagent, hend, hget, hversion]
  omega

/-- INTERNAL: the headers hold eight line-break characters. -/
theorem countP_of_isHeaders {rest : Text} (h : isHeaders rest = true) :
    rest.countP isBreak = 8 := by
  simp only [isHeaders, Bool.and_eq_true, beq_iff_eq] at h
  obtain ⟨hpre, hend⟩ := h
  obtain ⟨r, rfl⟩ := List.isPrefixOf_iff_prefix.mp hpre
  rw [List.drop_left] at hend
  have hhost : (r.takeWhile fun c => !isBreak c).countP isBreak = 0 := by
    rw [List.countP_eq_zero]
    intro c hc
    simpa using List.mem_takeWhile_imp hc
  rw [List.countP_append, ← List.takeWhile_append_dropWhile (p := fun c => !isBreak c) (l := r),
    List.countP_append, hhost, hend]
  decide

/-- INTERNAL: a text that ends where a line break follows. -/
theorem line_append {line rest : Text} (h : ∀ c ∈ line, isBreak c = false) :
    (line ++ '\r' :: rest).takeWhile (fun c => !isBreak c) = line ∧
      (line ++ '\r' :: rest).dropWhile (fun c => !isBreak c) = '\r' :: rest := by
  have hline : ∀ c ∈ line, (!isBreak c) = true := fun c hc => by rw [h c hc]; rfl
  have hr : (!isBreak '\r') = false := by decide
  rw [List.takeWhile_append_of_pos hline, List.dropWhile_append_of_pos hline]
  simp [hr]

/-- INTERNAL: the headers that are written are the headers that are read. -/
theorem isHeaders_agentHeader {ip : Text} (hip : PlainChars ip) :
    isHeaders (agentHeader ++ ip ++ CRLFCRLF) = true := by
  rw [isHeaders, List.append_assoc, List.isPrefixOf_iff_prefix.mpr (List.prefix_append _ _),
    List.drop_left, Bool.true_and, beq_iff_eq]
  exact (line_append hip.not_break).2

/-- INTERNAL: a text before the headers that is read as headers from its first line break on
has no line break.
SOURCE: centerserver.c:170-173 -/
theorem not_break_of_isHeaders {line rest : Text} (hrest : isHeaders rest = true)
    (h : isHeaders ((line ++ rest).dropWhile fun c => !isBreak c) = true) :
    ∀ c ∈ line, isBreak c = false := by
  -- the headers of the whole and the headers at its end have equally many breaks
  have hwhole := countP_of_isHeaders h
  have hend := countP_of_isHeaders hrest
  have hbefore : ((line ++ rest).takeWhile fun c => !isBreak c).countP isBreak = 0 := by
    rw [List.countP_eq_zero]
    intro c hc
    simpa using List.mem_takeWhile_imp hc
  have hall : (line ++ rest).countP isBreak = 8 := by
    rw [← List.takeWhile_append_dropWhile (p := fun c => !isBreak c) (l := line ++ rest),
      List.countP_append, hbefore, hwhole]
  rw [List.countP_append, hend] at hall
  have hline : line.countP isBreak = 0 := by omega
  intro c hc
  simpa using List.countP_eq_zero.mp hline c hc

/-- INTERNAL: the query string starts after the first `?`. -/
theorem strstrAfter_ask {path : Text} (h : '?' ∉ path) (query : Text) :
    strstrAfter ['?'] (path ++ '?' :: query) = some query := by
  induction path with
  | nil => simp [strstrAfter, List.isPrefixOf]
  | cons c path ih =>
    rw [List.mem_cons, not_or] at h
    rw [List.cons_append, strstrAfter, if_neg (by simpa [List.isPrefixOf] using h.1), ih h.2]

/-- INTERNAL: a line break of a request line is a line break of its query. -/
theorem requestLine_not_break {path query : Text} (hpath : PlainChars path) :
    (∀ c ∈ requestLine path query, isBreak c = false) ↔ ∀ c ∈ query, isBreak c = false := by
  have hget : ∀ c ∈ "GET".toList, isBreak c = false := by decide
  have hversion : ∀ c ∈ "HTTP/1.0".toList, isBreak c = false := by decide
  have hblank : isBreak ' ' = false := by decide
  simp only [requestLine, List.forall_mem_append, List.forall_mem_cons]
  exact ⟨fun h => h.2.2.1.2, fun h => ⟨hget, hblank, ⟨hpath.not_break, h⟩, hblank, hversion⟩⟩

/-- INTERNAL: how a request line is cut at its blanks. -/
theorem fields_requestLine {path query : Text} (hpath : ' ' ∉ path) :
    (' ' ∉ query → fields ' ' (requestLine path query) =
      ["GET".toList, path ++ query, "HTTP/1.0".toList]) ∧
    ((fields ' ' (requestLine path query)).length = 3 → ' ' ∉ query) := by
  have hget : ' ' ∉ "GET".toList := by decide
  have hversion : ' ' ∉ "HTTP/1.0".toList := by decide
  constructor
  · intro hquery
    have htarget : ' ' ∉ path ++ query := by simp [hpath, hquery]
    rw [requestLine, fields_append_sep hget, fields_append_sep htarget, fields_of_not_mem hversion]
  · intro hlength
    rw [fields_length, requestLine] at hlength
    simp only [List.count_append, List.count_cons_self, List.count_eq_zero_of_not_mem hget,
      List.count_eq_zero_of_not_mem hversion, List.count_eq_zero_of_not_mem hpath] at hlength
    exact List.count_eq_zero.mp (by omega)

/-- INTERNAL: a request is read as a question exactly when its query has no line break and no
blank, and is read as pairs. -/
theorem readQuestion_iff {path body ip : Text} {ps : List (Text × Text)}
    (hpath : PlainChars path) (hip : PlainChars ip) :
    readQuestion (requestLine path ('?' :: body) ++ (agentHeader ++ ip ++ CRLFCRLF)) = some ps ↔
      (∀ c ∈ body, isBreak c = false) ∧ ' ' ∉ body ∧ Query.pairs body = some ps := by
  have hheaders := isHeaders_agentHeader hip
  obtain ⟨rest, hrest⟩ : ∃ rest, agentHeader ++ ip ++ CRLFCRLF = '\r' :: rest :=
    ⟨agentHeader.tail ++ ip ++ CRLFCRLF, rfl⟩
  rw [hrest] at hheaders ⊢
  have hbreaks := @requestLine_not_break path ('?' :: body) hpath
  rw [List.forall_mem_cons, and_iff_right (show isBreak '?' = false by decide)] at hbreaks
  have hcut := @fields_requestLine path ('?' :: body) (hpath.not_mem (c := ' ') (by decide))
  rw [List.mem_cons, or_iff_right (by decide)] at hcut
  have hafter := strstrAfter_ask (hpath.not_mem (c := '?') (by decide)) body
  constructor
  · intro hread
    unfold readQuestion at hread
    split at hread
    · next hhead =>
      have hline := not_break_of_isHeaders hheaders hhead
      rw [(line_append hline).1] at hread
      split at hread
      · next hfields =>
        have hblank := hcut.2 (by rw [hfields]; rfl)
        rw [hcut.1 hblank] at hfields
        simp only [List.cons.injEq, and_true] at hfields
        obtain ⟨rfl, rfl, rfl⟩ := hfields
        rw [if_pos ⟨rfl, rfl⟩, hafter, Option.bind_some] at hread
        exact ⟨hbreaks.mp hline, hblank, hread⟩
      · cases hread
    · cases hread
  · rintro ⟨hbody, hblank, hpairs⟩
    have hline := @line_append _ rest (hbreaks.mpr hbody)
    rw [readQuestion, hline.1, hline.2, if_pos hheaders, hcut.1 hblank]
    simp only [and_self, if_true, hafter, Option.bind_some, hpairs]

/-! ## The question that is sent -/

/-- INTERNAL: a name is resolved to an address.
SOURCE: centerserver.c:62-84 -/
theorem resolveHost_eq_some {lookup : ℕ → Text → Option InAddr} {hostname ip : Text} {fuel n : ℕ}
    (h : resolveHost lookup hostname fuel n = some (some ip)) : ∃ a, ip = inetNtoa a := by
  induction fuel generalizing n with
  | zero => cases h
  | succ fuel ih =>
    unfold resolveHost at h
    split at h
    · next a hlookup =>
      simp only [Option.some.injEq] at h
      exact ⟨a, h.symm⟩
    · dsimp only at h
      split at h
      · exact ih h
      · cases h

/-- INTERNAL: what is sent is the request line and the headers.
SOURCE: http.c:209-217, centerserver.c:168-178 -/
theorem tokenExchange_sent {server : AuthServer} {moment : HttpMoment} {token mac text : Text}
    (hpath : server.tokenVerifyPath = "/wificat/tokenverify/".toList)
    (h : (tokenExchange server moment token mac).bind Exchange.sent = some text) :
    ∃ a, text = requestLine "/wificat/tokenverify/".toList (tokenQuery server.uid token mac) ++
      (agentHeader ++ inetNtoa a ++ CRLFCRLF) := by
  obtain ⟨exchange, hexchange, hsent⟩ := Option.bind_eq_some_iff.mp h
  obtain ⟨resolved, hresolved, rfl⟩ := Option.map_eq_some_iff.mp hexchange
  cases resolved with
  | none => cases hsent
  | some ip =>
    obtain ⟨a, rfl⟩ := resolveHost_eq_some hresolved
    dsimp only [httpGetRequest] at hsent
    split at hsent
    · have hlen := (inetNtoa_plain a).2
      have hquery : (tokenQuery server.uid token mac).length ≤ 127 := List.length_take_le _ _
      have hlength : "/wificat/tokenverify/".toList.length = 21 := by decide
      rw [hpath, httpRequest_eq (by rw [hlength, MAX_BUF]; omega)] at hsent
      exact ⟨a, (Option.some.inj hsent).symm⟩
    · cases hsent

/-- The text is the question about this token and this address, and about no other.
SOURCE: http.c:203-217 -/
def AsksExactly (server : AuthServer) (token mac text : Text) : Prop :=
  readQuestion text = some (questionPairs server.uid token mac) ∧
    ∀ (moment' : HttpMoment) (ip' token' mac' : Text), '\x00' ∉ token' →
      arpGet moment'.arpTable ip' = some mac' →
      (tokenExchange server moment' token' mac').bind Exchange.sent = some text →
      token' = token ∧ mac' = mac

/-- A token that needs no encoding, and leaves room in the buffer for the address.
SOURCE: http.c:215-216 -/
def CleanToken (uid : ℤ) (token mac : Text) : Prop :=
  Query.Plain token ∧ (∀ c ∈ token, isBreak c = false) ∧ ' ' ∉ token ∧
    (decimal uid).length + token.length + mac.length + 16 < 126

instance (uid : ℤ) (token mac : Text) : Decidable (CleanToken uid token mac) :=
  inferInstanceAs (Decidable (_ ∧ _ ∧ _ ∧ _))

/-- INTERNAL: the number of characters of a question. -/
theorem unpairs_questionPairs_length (uid : ℤ) (token mac : Text) :
    (Query.unpairs (questionPairs uid token mac)).length =
      (decimal uid).length + token.length + mac.length + 16 := by
  have hlength := Query.unpairs_length
    (show questionPairs uid token mac ≠ [] by simp [questionPairs])
  have huid : "uid".toList.length = 3 := by decide
  have htoken : "token".toList.length = 5 := by decide
  have hmac : "mac".toList.length = 3 := by decide
  simp only [questionPairs, List.map_cons, List.map_nil, List.sum_cons, List.sum_nil, huid, htoken,
    hmac] at hlength
  rw [questionPairs]
  omega

/-- INTERNAL: where the token and the address stand in a question. -/
theorem unpairs_questionPairs (uid : ℤ) (token mac : Text) :
    Query.unpairs (questionPairs uid token mac) =
      "uid=".toList ++ decimal uid ++ "&token=".toList ++
        (token ++ "&mac".toList ++ '=' :: mac) := by
  simp [Query.unpairs, questionPairs, Query.unpair, unfields, List.intercalate_cons_cons]

/-- INTERNAL: the pairs of a question that fits are read back exactly when the token is plain.
-/
theorem pairs_question_iff {uid : ℤ} {token mac : Text} (hmac : PlainChars mac) :
    Query.pairs ((Query.unpairs (questionPairs uid token mac)).take 126) =
        some (questionPairs uid token mac) ↔
      Query.Plain token ∧ (decimal uid).length + token.length + mac.length + 16 ≤ 126 := by
  have huid : Query.Plain "uid".toList := by decide
  have htoken : Query.Plain "token".toList := by decide
  have hmacName : Query.Plain "mac".toList := by decide
  rw [Query.pairs_take_unpairs_iff (by simp [questionPairs]), unpairs_questionPairs_length]
  simp only [questionPairs, List.forall_mem_cons, List.not_mem_nil, false_implies, implies_true,
    and_true, huid, htoken, hmacName, true_and, (decimal_plain uid).plain, hmac.plain]

/-- INTERNAL: a line break or a blank of a question is one of its token. -/
theorem question_clean {uid : ℤ} {token mac : Text} (hmac : PlainChars mac)
    (hbreak : ∀ c ∈ token, isBreak c = false) (hblank : ' ' ∉ token) :
    (∀ c ∈ Query.unpairs (questionPairs uid token mac), isBreak c = false) ∧
      ' ' ∉ Query.unpairs (questionPairs uid token mac) := by
  have huid : ∀ c ∈ "uid=".toList, isBreak c = false := by decide
  have htoken : ∀ c ∈ "&token=".toList, isBreak c = false := by decide
  have hmacName : ∀ c ∈ "&mac".toList, isBreak c = false := by decide
  have hequal : isBreak '=' = false := by decide
  rw [unpairs_questionPairs]
  constructor
  · simp only [List.forall_mem_append, List.forall_mem_cons]
    exact ⟨⟨⟨huid, (decimal_plain uid).not_break⟩, htoken⟩, ⟨hbreak, hmacName⟩, hequal,
      hmac.not_break⟩
  · simp [hblank, (decimal_plain uid).not_mem (c := ' ') (by decide),
      hmac.not_mem (c := ' ') (by decide)]

/-- INTERNAL: two questions that are sent as the same text have the same query, unless the
query breaks the line. -/
theorem query_eq_of_requestLine {path body body' ip ip' : Text} (hpath : PlainChars path)
    (hbody : ∀ c ∈ body, isBreak c = false) (hbody' : ∀ c ∈ body', isBreak c = false)
    (h : requestLine path body ++ (agentHeader ++ ip ++ CRLFCRLF) =
      requestLine path body' ++ (agentHeader ++ ip' ++ CRLFCRLF)) : body = body' := by
  have hline : ∀ {b ip : Text}, (∀ c ∈ b, isBreak c = false) →
      (requestLine path b ++ (agentHeader ++ ip ++ CRLFCRLF)).takeWhile (fun c => !isBreak c) =
        requestLine path b := fun hb =>
    (line_append ((requestLine_not_break hpath).mpr hb)).1
  have hsame := congrArg (List.takeWhile fun c => !isBreak c) h
  rw [hline hbody, hline hbody'] at hsame
  simpa [requestLine] using hsame

/-- **The question is about this token and this client** exactly when the token needs no
encoding and the buffer has room for all of the address.
SOURCE: http.c:203-222, centerserver.c:153-179 -/
theorem asks_exactly_iff (server : AuthServer) (moment : HttpMoment) (ip token mac text : Text)
    (hpath : server.tokenVerifyPath = "/wificat/tokenverify/".toList)
    (hnul : '\x00' ∉ token) (hmac : arpGet moment.arpTable ip = some mac)
    (hsent : (tokenExchange server moment token mac).bind Exchange.sent = some text) :
    AsksExactly server token mac text ↔ CleanToken server.uid token mac := by
  have hpathPlain : PlainChars "/wificat/tokenverify/".toList := by unfold PlainChars; decide
  have hmacPlain := arpGet_plain hmac
  obtain ⟨a, htext⟩ := tokenExchange_sent hpath hsent
  have hjoin := unpairs_questionPairs server.uid token mac
  have hlength := unpairs_questionPairs_length server.uid token mac
  rw [tokenQuery_eq] at htext
  constructor
  · rintro ⟨hread, hunique⟩
    rw [htext, readQuestion_iff hpathPlain (inetNtoa_plain a).1, pairs_question_iff hmacPlain] at hread
    obtain ⟨hbreak, hblank, hplain, hfits⟩ := hread
    rw [List.take_of_length_le (hlength.trans_le hfits), hjoin] at hbreak hblank
    refine ⟨hplain, fun c hc => hbreak c (by simp [hc]), fun hc => hblank (by simp [hc]), ?_⟩
    -- in a full buffer, a token that goes on with the address asks the same
    rcases Nat.lt_or_eq_of_le hfits with hlt | heq
    · exact hlt
    · have hlonger : tokenQuery server.uid (token ++ "&mac=".toList ++ mac) mac =
          tokenQuery server.uid token mac := by
        have hmore : Query.unpairs (questionPairs server.uid (token ++ "&mac=".toList ++ mac) mac) =
            Query.unpairs (questionPairs server.uid token mac) ++ ("&mac".toList ++ '=' :: mac) := by
          rw [unpairs_questionPairs, hjoin]
          simp
        rw [tokenQuery_eq, tokenQuery_eq, hmore, List.take_append_of_le_length (by omega)]
      have hsame := (hunique moment ip (token ++ "&mac=".toList ++ mac) mac ?_ hmac ?_).1
      · simp at hsame
      · simp [hnul, hmacPlain.not_mem (c := '\x00') (by decide)]
      · rw [tokenExchange, hlonger]
        exact hsent
  · rintro ⟨hplain, hbreak, hblank, hfits⟩
    obtain ⟨hbody, hbodyBlank⟩ := question_clean hmacPlain hbreak hblank
    have hread : readQuestion text = some (questionPairs server.uid token mac) := by
      rw [htext, readQuestion_iff hpathPlain (inetNtoa_plain a).1, pairs_question_iff hmacPlain,
        List.take_of_length_le (by omega)]
      exact ⟨hbody, hbodyBlank, hplain, hfits.le⟩
    refine ⟨hread, fun moment' ip' token' mac' _ hmac' hsent' => ?_⟩
    obtain ⟨a', htext'⟩ := tokenExchange_sent hpath hsent'
    rw [tokenQuery_eq] at htext'
    rw [htext', readQuestion_iff hpathPlain (inetNtoa_plain a').1] at hread
    have hquestion : ∀ c ∈ '?' :: (Query.unpairs (questionPairs server.uid token' mac')).take 126,
        isBreak c = false := List.forall_mem_cons.mpr ⟨by decide, hread.1⟩
    have hbodyTake : ∀ c ∈ '?' :: (Query.unpairs (questionPairs server.uid token mac)).take 126,
        isBreak c = false :=
      List.forall_mem_cons.mpr ⟨by decide, fun c hc => hbody c (List.mem_of_mem_take hc)⟩
    have hsame := query_eq_of_requestLine hpathPlain hquestion hbodyTake (htext'.symm.trans htext)
    rw [List.cons.injEq, List.take_of_length_le (l := Query.unpairs (questionPairs _ token _))
      (by omega)] at hsame
    -- the other question was not cut either
    have hcut : (Query.unpairs (questionPairs server.uid token' mac')).length ≤ 126 := by
      have hlen := congrArg List.length hsame.2
      rw [List.length_take] at hlen
      omega
    have hequal := hsame.2
    rw [List.take_of_length_le hcut, unpairs_questionPairs, hjoin, List.append_cancel_left_eq,
      eq_comm] at hequal
    have hsep : '=' ∉ token ++ "&mac".toList := by simp [hplain.2.1]
    obtain ⟨htoken, -, hmacs⟩ := (List.append_cons_inj_of_notMem hsep
      (hmacPlain.not_mem (by decide))).mp hequal
    exact ⟨(List.append_cancel_right htoken).symm, hmacs.symm⟩

/-- A hexadecimal token is asked about. -/
theorem asks_exactly_sample :
    (tokenExchange {} silentServer "5f3a".toList "00:11:22:33:44:55".toList).bind Exchange.sent =
        some (tokenRequest {} "10.0.0.1".toList "5f3a".toList "00:11:22:33:44:55".toList) ∧
      AsksExactly {} "5f3a".toList "00:11:22:33:44:55".toList
        (tokenRequest {} "10.0.0.1".toList "5f3a".toList "00:11:22:33:44:55".toList) := by
  have hsent : (tokenExchange {} silentServer "5f3a".toList "00:11:22:33:44:55".toList).bind
      Exchange.sent =
        some (tokenRequest {} "10.0.0.1".toList "5f3a".toList "00:11:22:33:44:55".toList) := by
    decide +kernel
  exact ⟨hsent, (asks_exactly_iff {} silentServer "10.0.0.2".toList "5f3a".toList
    "00:11:22:33:44:55".toList _ rfl (by decide) (by decide +kernel) hsent).mpr (by decide)⟩

/-- A token that brings a MAC address of its own asks about four pairs. -/
theorem asks_about_another_client :
    ∃ token mac text, '\x00' ∉ token ∧
      arpGet silentServer.arpTable "10.0.0.2".toList = some mac ∧
      (tokenExchange {} silentServer token mac).bind Exchange.sent = some text ∧
      ¬AsksExactly {} token mac text := by
  refine ⟨"5f3a&mac=00:00:00:00:00:01".toList, "00:11:22:33:44:55".toList,
    tokenRequest {} "10.0.0.1".toList "5f3a&mac=00:00:00:00:00:01".toList
      "00:11:22:33:44:55".toList, by decide, by decide +kernel, by decide +kernel, fun h => ?_⟩
  exact absurd h.1 (by decide +kernel)

end WifiCat.Analysis
