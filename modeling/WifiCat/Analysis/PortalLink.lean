import WifiCat.Analysis.Dispatch
import WifiCat.Analysis.GetRequest
import WifiCat.Analysis.QueryVariables
import WifiCat.Analysis.SanitisedPath
import WifiCat.Model.HttpdThread

/-!
# The portal's link

A client that follows the link of the splash page comes back to the web server, and its request is
cut, sanitised, looked up and divided into variables before the function that authenticates gets
it.  `portalLink_iff` says when that function gets what the link was made of.
-/

set_option autoImplicit false

namespace WifiCat.Analysis

open Scan PathSegments

/-! ## Tokens -/

/-- A token that is written as it is; those that the daemon makes are hexadecimal digits.
SOURCE: client_list.c:107-110 -/
def TokenText (token : Text) : Prop := token ≠ [] ∧ ∀ c ∈ token, acceptable c = true ∧ c ≠ '+'

instance (token : Text) : Decidable (TokenText token) := inferInstanceAs (Decidable (_ ∧ _))

theorem acceptable_spec {c : Char} (h : acceptable c = true) :
    33 ≤ c.toNat ∧ c.toNat < 127 ∧ c ≠ '%' ∧ c ≠ '=' ∧ c ≠ '&' ∧ c ≠ '/' ∧ c ≠ '?' := by
  have hall : ∀ n < 128, acceptable (Char.ofNat n) = true →
      33 ≤ n ∧ n < 127 ∧ n ≠ 37 ∧ n ≠ 61 ∧ n ≠ 38 ∧ n ≠ 47 ∧ n ≠ 63 := by decide
  have hbound : c.toNat < 128 := by
    unfold acceptable at h
    simp only [Bool.and_eq_true, decide_eq_true_eq] at h
    exact h.1.2
  obtain ⟨hlow, hhigh, hpercent, heq, hamp, hslash, hask⟩ :=
    hall c.toNat hbound (by rwa [Char.ofNat_toNat])
  refine ⟨hlow, hhigh, ?_, ?_, ?_, ?_, ?_⟩ <;> rintro rfl <;> contradiction

theorem TokenText.encoded {token : Text} (h : TokenText token) : httpdUrlEncode token = token := by
  have hbytes : Query.Bytes token := fun c hc => by
    have hc := acceptable_spec (h.2 c hc).1
    omega
  rw [httpdUrlEncode_eq hbytes, Query.percentEncode_eq_self fun c hc => (h.2 c hc).1]

/-- What is kept of a token that was cut is read as it is. -/
theorem httpdValue_take {token : Text} (h : TokenText token) (n : ℕ) :
    httpdValue (token.take n) = token.take n := by
  have hmem : ∀ c ∈ token.take n, acceptable c = true ∧ c ≠ '+' := fun c hc =>
    h.2 c (List.mem_of_mem_take hc)
  have hbytes : Query.Bytes (token.take n) := fun c hc => by
    have hc := acceptable_spec (hmem c hc).1
    omega
  have hnul : '\x00' ∉ token.take n := fun hc => absurd (hmem _ hc).1 (by decide)
  have hplus : '+' ∉ token.take n := fun hc => (hmem _ hc).2 rfl
  have hvalue := httpdValue_urlEncode hbytes hnul
  rwa [httpdUrlEncode_eq hbytes, Query.percentEncode_eq_self fun c hc => (hmem c hc).1,
    Query.plusToSpace_eq_self.mpr hplus] at hvalue

/-! ## The variables of a link that was cut -/

/-- The variables that a link carries. -/
def linkFields (redir token : Text) : List (Text × Text) :=
  [("redir".toList, redir), ("tok".toList, token)]

theorem encodedQuery_linkFields (redir token : Text) :
    encodedQuery (linkFields redir token) =
      ("redir".toList ++ '=' :: httpdUrlEncode redir) ++
        '&' :: ("tok".toList ++ '=' :: httpdUrlEncode token) := by
  simp [encodedQuery, linkFields, unfields, List.intercalate_cons_cons]

/-- The value of a variable. -/
def lookup (vars : List HttpVar) (name : Text) : Option Text :=
  (httpdGetVariableByName vars name).map HttpVar.value

theorem lookup_storeField {name : Text} (hname : ReadsAsItself name) (value name' : Text)
    (st : Text × List HttpVar) :
    lookup (storeField st (name ++ '=' :: value)).2 name' =
      (lookup st.2 name').or (if name = name' then some (httpdValue (rawValue value)) else none) := by
  rw [storeField_name hname, lookup, getVariable_add, hname.2.2.2]
  rfl

/-- The start of two texts with a separator between them: some of the first one, or the first one
and some of the second one. -/
theorem take_sep (sep : Char) (v w : Text) (n : ℕ) :
    (v ++ sep :: w).take n = v.take n ∨
      (v ++ sep :: w).take n = v ++ sep :: w.take (n - v.length - 1) ∧ v.length < n := by
  rcases Nat.lt_or_ge v.length n with hlt | hge
  · obtain ⟨m, hm⟩ : ∃ m, n - v.length = m + 1 := ⟨n - v.length - 1, by omega⟩
    rw [List.take_append, List.take_of_length_le (by omega), hm, List.take_succ_cons,
      Nat.add_sub_cancel]
    exact Or.inr ⟨rfl, hlt⟩
  · exact Or.inl (List.take_append_of_le_length hge)

/-- INTERNAL: what the field of another variable gives. -/
theorem lookup_firstField (memory value : Text) :
    lookup (storeField (memory, []) ("redir".toList ++ '=' :: value)).2 "tok".toList = none := by
  rw [lookup_storeField (by decide), if_neg (by decide)]
  rfl

/-- INTERNAL: a link of which some of the token was cut does not carry the token. -/
theorem lookup_tok_take {redir token : Text} (hredir : Query.Bytes redir) (htoken : TokenText token)
    {n : ℕ} (hn : n < (encodedQuery (linkFields redir token)).length) :
    lookup (httpdStoreData [] ((encodedQuery (linkFields redir token)).take n)) "tok".toList ≠
      some token := by
  rw [encodedQuery_linkFields, htoken.encoded] at hn ⊢
  have hclean : ∀ sep, acceptable sep = false → sep ≠ '%' → isHexDigit sep = false →
      sep ∉ httpdUrlEncode redir := by
    intro sep hkeep hpercent hhex
    rw [httpdUrlEncode_eq hredir]
    exact Query.KeepsPlus.not_mem hkeep hpercent hhex hredir
  have hamp : '&' ∉ "redir".toList ++ '=' :: httpdUrlEncode redir := by
    rw [List.mem_append, List.mem_cons, not_or, not_or]
    exact ⟨by decide, by decide, hclean _ acceptable_keepsPlus.amp (by decide) (by decide)⟩
  have htamp : '&' ∉ "tok".toList ++ '=' :: token := by
    rw [List.mem_append, List.mem_cons, not_or, not_or]
    exact ⟨by decide, by decide, fun h => (acceptable_spec (htoken.2 _ h).1).2.2.2.2.1 rfl⟩
  rcases take_sep '&' ("redir".toList ++ '=' :: httpdUrlEncode redir)
    ("tok".toList ++ '=' :: token) n with hcut | ⟨hcut, hlt⟩
  · -- nothing of the token's field is there
    have hone : '&' ∉ ("redir".toList ++ '=' :: httpdUrlEncode redir).take n := fun h =>
      hamp (List.mem_of_mem_take h)
    rw [hcut, storeData_eq_storeFields, fields_of_not_mem hone, storeFields]
    split
    · next hmem =>
      rcases take_sep '=' "redir".toList (httpdUrlEncode redir) n with hname | ⟨hfield, -⟩
      · rw [hname] at hmem
        exact absurd (List.mem_of_mem_take hmem) (by decide)
      · rw [hfield, lookup_firstField]
        exact (Option.some_ne_none token).symm
    · exact (Option.some_ne_none token).symm
  · set m := n - ("redir".toList ++ '=' :: httpdUrlEncode redir).length - 1 with hm
    have htwo : '&' ∉ ("tok".toList ++ '=' :: token).take m := fun h =>
      htamp (List.mem_of_mem_take h)
    rw [hcut, storeData_eq_storeFields, fields_append_sep hamp, fields_of_not_mem htwo, storeFields,
      storeFields]
    · split
      · next hmem =>
        rcases take_sep '=' "tok".toList token m with hname | ⟨hfield, hlt'⟩
        · rw [hname] at hmem
          exact absurd (List.mem_of_mem_take hmem) (by decide)
        · -- the value is shorter than the token
          have heq : '=' ∉ token.take (m - "tok".toList.length - 1) := fun h =>
            (acceptable_spec (htoken.2 _ (List.mem_of_mem_take h)).1).2.2.2.1 rfl
          rw [hfield, lookup_storeField (by decide), lookup_firstField, Option.none_or, if_pos rfl,
            rawValue_of_not_mem heq, httpdValue_take htoken]
          intro hsame
          have hlength := congrArg List.length (Option.some.inj hsame)
          rw [List.length_take] at hlength
          have htok : "tok".toList.length = 3 := rfl
          have hpos := List.length_pos_iff.mpr htoken.1
          simp only [List.length_append, List.length_cons] at hn hm hlt
          omega
      · rw [lookup_firstField]
        exact (Option.some_ne_none token).symm
    · exact List.cons_ne_nil _ _

/-! ## The target of a link -/

/-- What a browser asks the server of an `http` link for. -/
def requestTarget (url : Text) : Text := (url.drop "http://".toList.length).dropWhile (· ≠ '/')

theorem not_mem_decimal_slash (n : ℤ) : '/' ∉ decimal n := by
  intro h
  rcases mem_decimal h with h | h
  · exact absurd h (by decide)
  · exact absurd h (by decide)

/-- INTERNAL: the parts of a link, regrouped. -/
theorem link_parts (scheme host port dir redir token name₁ name₂ : Text) :
    scheme ++ host ++ ':' :: port ++ '/' :: dir ++ ['/'] ++ '?' :: (name₁ ++ ['=']) ++ redir ++
        '&' :: (name₂ ++ ['=']) ++ token =
      scheme ++ ((host ++ ':' :: port) ++ '/' :: (dir ++ '/' :: '?' ::
        ((name₁ ++ '=' :: redir) ++ '&' :: (name₂ ++ '=' :: token)))) := by
  simp

/-- The link behind the address of the server.
SOURCE: http.c:677-688 -/
theorem requestTarget_link (remote : RemoteAuth) {config : Config} (h : '/' ∉ config.gwAddress)
    (token redir : Text) :
    requestTarget (httpAuthLink (httpMakeAuthtarget remote config token redir)) =
      '/' :: (remote.authdir ++ '/' :: '?' :: encodedQuery (linkFields redir token)) := by
  have hhost : ∀ c ∈ config.gwAddress ++ ':' :: decimal (int32 config.gwPort),
      decide (c ≠ '/') = true := by
    intro c hc
    refine decide_eq_true ?_
    rintro rfl
    rw [List.mem_append, List.mem_cons] at hc
    rcases hc with hc | hc | hc
    · exact h hc
    · exact absurd hc (by decide)
    · exact not_mem_decimal_slash _ hc
  have hlink : httpAuthLink (httpMakeAuthtarget remote config token redir) =
      "http://".toList ++ ((config.gwAddress ++ ':' :: decimal (int32 config.gwPort)) ++
        '/' :: (remote.authdir ++ '/' :: '?' :: encodedQuery (linkFields redir token))) := by
    rw [encodedQuery_linkFields]
    exact link_parts _ _ _ _ _ _ "redir".toList "tok".toList
  rw [requestTarget, hlink, List.drop_left, List.dropWhile_append_of_pos hhost,
    List.dropWhile_cons_of_neg (by simp)]

theorem isHexDigit_acceptable {c : Char} (h : isHexDigit c = true) : acceptable c = true := by
  have hall : ∀ n < 128, isHexDigit (Char.ofNat n) = true → acceptable (Char.ofNat n) = true := by
    decide
  have hbound : c.toNat < 128 := by
    unfold isHexDigit at h
    simp only [Bool.or_eq_true, Bool.and_eq_true, decide_eq_true_eq, Char.le_def,
      UInt32.le_iff_toNat_le] at h
    show c.val.toNat < 128
    have h9 : '9'.val.toNat = 57 := rfl
    have hf : 'f'.val.toNat = 102 := rfl
    have hF : 'F'.val.toNat = 70 := rfl
    omega
  have hacceptable := hall c.toNat hbound
  rw [Char.ofNat_toNat] at hacceptable
  exact hacceptable h

/-- The characters of a query with encoded values. -/
theorem mem_linkQuery {redir token : Text} (hredir : Query.Bytes redir) (htoken : TokenText token)
    {c : Char} (h : c ∈ encodedQuery (linkFields redir token)) :
    33 ≤ c.toNat ∧ c.toNat < 127 ∧ c ≠ '/' := by
  have hkept : ∀ d : Char, acceptable d = true → 33 ≤ d.toNat ∧ d.toNat < 127 ∧ d ≠ '/' := by
    intro d hd
    obtain ⟨hlow, hhigh, -, -, -, hslash, -⟩ := acceptable_spec hd
    exact ⟨hlow, hhigh, hslash⟩
  rw [encodedQuery_linkFields, htoken.encoded, httpdUrlEncode_eq hredir] at h
  simp only [List.mem_append, List.mem_cons] at h
  rcases h with (h | rfl | h) | rfl | h | rfl | h
  · revert h c
    decide
  · decide
  · rcases Query.mem_percentEncode hredir h with h | rfl | h
    · exact hkept c h
    · decide
    · exact hkept c (isHexDigit_acceptable h)
  · decide
  · revert h c
    decide
  · decide
  · exact hkept c (htoken.2 c h).1

/-- INTERNAL: the request that a link makes, by its target.
SOURCE: api.c:434-438, 601-609, protocol.c:723-794 -/
theorem readTarget_link {redir token : Text} (hredir : Query.Bytes redir)
    (htoken : TokenText token) :
    let read := readTarget
      ("/wificat_auth/".toList ++ '?' :: encodedQuery (linkFields redir token))
    read.1.path = "/wificat_auth/".toList ∧
      read.2 = httpdStoreData [] ((encodedQuery (linkFields redir token)).take 1008) := by
  set query := encodedQuery (linkFields redir token) with hquery
  have hcut : strncpyInto HTTP_MAX_URL ("/wificat_auth/".toList ++ '?' :: query) =
      slashed (["wificat_auth".toList] ++ ['?' :: query.take 1008]) := by
    simp [strncpyInto, HTTP_MAX_URL, slashed]
  have hlast : '/' ∉ '?' :: query.take 1008 := by
    rw [List.mem_cons, not_or]
    exact ⟨by decide, fun h => (mem_linkQuery hredir htoken (List.mem_of_mem_take h)).2.2 rfl⟩
  have hclean : httpdSanitiseUrl (slashed (["wificat_auth".toList] ++ ['?' :: query.take 1008])) =
      "/wificat_auth/".toList ++ '?' :: query.take 1008 := by
    have hkept : ["wificat_auth".toList].filter (fun c => c ≠ [] ∧ c ≠ ".".toList) =
        ["wificat_auth".toList] := by decide
    rw [sanitiseUrl_slashed (by decide) hlast, hkept, resolveOnce_eq_self (by decide)]
    simp [slashed]
  have hask : ∀ c ∈ "/wificat_auth/".toList, decide (c ≠ '?') = true := by decide
  have hpath : ("/wificat_auth/".toList ++ '?' :: query.take 1008).takeWhile (· ≠ '?') =
      "/wificat_auth/".toList := by
    rw [List.takeWhile_append_of_pos hask, List.takeWhile_cons_of_neg (by decide), List.append_nil]
  dsimp only
  rw [readTarget, hcut, hclean]
  unfold httpdUrlData
  dsimp only
  rw [if_pos (by simp), hpath]
  exact ⟨rfl, rfl⟩

/-! ## The request of a link -/

theorem mem_linkTarget {redir token : Text} (hredir : Query.Bytes redir) (htoken : TokenText token) :
    TargetText ("/wificat_auth/".toList ++ '?' :: encodedQuery (linkFields redir token)) := by
  intro c hc
  rw [List.mem_append, List.mem_cons] at hc
  rcases hc with hc | rfl | hc
  · revert hc c
    decide
  · decide
  · have hc := mem_linkQuery hredir htoken hc
    omega

/-- INTERNAL: both variables of a link arrive exactly when it is not cut and the redirect has no
`+`. -/
theorem lookup_link_iff {redir token : Text} (hredir : Query.Bytes redir) (hnul : '\x00' ∉ redir)
    (htoken : TokenText token) (n : ℕ) :
    let vars := httpdStoreData [] ((encodedQuery (linkFields redir token)).take n)
    (lookup vars "tok".toList = some token ∧ lookup vars "redir".toList = some redir) ↔
      (encodedQuery (linkFields redir token)).length ≤ n ∧ '+' ∉ redir := by
  intro vars
  have hbytes : Query.Bytes token := fun c hc => by
    have hc := acceptable_spec (htoken.2 c hc).1
    omega
  have htnul : '\x00' ∉ token := fun hc => absurd (htoken.2 _ hc).1 (by decide)
  have htplus : '+' ∉ token := fun hc => (htoken.2 _ hc).2 rfl
  have hnames : ∀ p ∈ linkFields redir token, ReadsAsItself p.1 := by
    simp only [linkFields, List.forall_mem_cons, List.not_mem_nil, false_imp_iff, implies_true,
      and_true]
    decide
  have hvalues : ∀ p ∈ linkFields redir token, Query.Bytes p.2 ∧ '\x00' ∉ p.2 := by
    simp only [linkFields, List.forall_mem_cons, List.not_mem_nil, false_imp_iff, implies_true,
      and_true]
    exact ⟨⟨hredir, hnul⟩, hbytes, htnul⟩
  by_cases hlength : (encodedQuery (linkFields redir token)).length ≤ n
  · have hvars : vars = httpdStoreData [] (encodedQuery (linkFields redir token)) := by
      dsimp only [vars]
      rw [List.take_of_length_le hlength]
    have htok : lookup vars "tok".toList = some token := by
      rw [lookup, hvars, getVariable_encodedQuery hnames hvalues]
      exact congrArg some (Query.plusToSpace_eq_self.mpr htplus)
    have hred : lookup vars "redir".toList = some (Query.plusToSpace redir) := by
      rw [lookup, hvars, getVariable_encodedQuery hnames hvalues]
      rfl
    rw [htok, hred]
    simp [Query.plusToSpace_eq_self, hlength]
  · refine iff_of_false (fun h => ?_) fun h => hlength h.1
    exact lookup_tok_take hredir htoken (not_le.mp hlength) h.1

/-- INTERNAL: the path of a link leads to the function that authenticates. -/
theorem processRequest_auth {server : HttpdServer}
    (hauth : server.remote.authdir = "wificat_auth".toList)
    (hdeny : server.dirs.denydir = "wificat_deny".toList) :
    httpdProcessRequest server.files server.content "/wificat_auth/".toList =
      .call .auth defaultContentType := by
  have hcut : strncpyInto HTTP_MAX_URL "/wificat_auth/".toList = "/wificat_auth/".toList :=
    strncpyInto_of_le (by decide)
  have hplace : pathPlace "/wificat_auth/".toList = dirPlace server.remote.authdir := by
    rw [hauth]
    decide
  have hother : dirPlace server.remote.authdir ≠ dirPlace "wificat_deny".toList := by
    rw [hauth]
    decide
  have hslash : '/' ∈ "/wificat_auth/".toList := by decide
  rw [HttpdServer.content, processRequest_eq_dispatch]
  dsimp only
  rw [hcut, if_pos hslash, hplace, dispatch, hdeny, if_neg hother]
  exact if_pos (Eq.refl _)

theorem length_linkTarget (query : Text) :
    ("/wificat_auth/".toList ++ '?' :: query).length ≤ 1023 ↔ query.length ≤ 1008 := by
  have hdir : "/wificat_auth/".toList.length = 14 := rfl
  rw [List.length_append, List.length_cons, hdir]
  omega

/-! ## The request that a link makes -/

section Link

variable {server : HttpdServer} {config : Config} {token redir : Text}
  {connection : HttpdConnection} {version rest : Text}

/-- A browser follows a link of the server over the connection: the gateway's address is one, the
directories are those of the defaults, the redirect is text of bytes, and the line of the request
fits the buffer. -/
structure FollowsLink (server : HttpdServer) (config : Config) (token redir : Text)
    (connection : HttpdConnection) (version rest : Text) : Prop where
  address : '/' ∉ config.gwAddress
  authdir : server.remote.authdir = "wificat_auth".toList
  denydir : server.dirs.denydir = "wificat_deny".toList
  tokenText : TokenText token
  bytes : Query.Bytes redir
  nul : '\x00' ∉ redir
  stack : connection.stack.length = HTTP_MAX_LEN
  versionText : TargetText version
  room : (getLine (requestTarget (httpAuthLink
    (httpMakeAuthtarget server.remote config token redir))) version).length < HTTP_MAX_LEN
  asked : PieceReader.Reader.stream ⟨[], connection.pieces⟩ =
    getRequest (requestTarget (httpAuthLink
      (httpMakeAuthtarget server.remote config token redir))) version rest

theorem FollowsLink.target (h : FollowsLink server config token redir connection version rest) :
    requestTarget (httpAuthLink (httpMakeAuthtarget server.remote config token redir)) =
      "/wificat_auth/".toList ++ '?' :: encodedQuery (linkFields redir token) := by
  rw [requestTarget_link server.remote h.address, h.authdir]
  rfl

/-- INTERNAL: what is read of the request, and where its path leads. -/
theorem FollowsLink.read (h : FollowsLink server config token redir connection version rest) :
    let read := httpdReadRequest connection.stack ⟨[], connection.pieces⟩
    read.rc = 0 ∧
      httpdProcessRequest server.files server.content read.request.path =
        .call .auth defaultContentType ∧
      read.vars = httpdStoreData [] ((encodedQuery (linkFields redir token)).take 1008) := by
  have hroom := h.room
  have hasked := h.asked
  rw [h.target] at hroom hasked
  obtain ⟨hrc, -, hpath, -, hvars⟩ := readRequest_get h.stack (by simp)
    (mem_linkTarget h.bytes h.tokenText) h.versionText hroom hasked
  obtain ⟨hread, hquery⟩ := readTarget_link h.bytes h.tokenText
  dsimp only
  refine ⟨hrc, ?_, hvars.trans hquery⟩
  rw [hpath, hread, processRequest_auth h.authdir h.denydir]

/-- INTERNAL: what the function that authenticates gets.
SOURCE: http.c:587-612 -/
theorem FollowsLink.request_iff
    (h : FollowsLink server config token redir connection version rest) :
    (httpdReadRequest connection.stack ⟨[], connection.pieces⟩).toHttpRequest
        connection.clientAddr =
        { clientAddr := connection.clientAddr, tok := some token, redir := some redir } ↔
      (requestTarget (httpAuthLink
        (httpMakeAuthtarget server.remote config token redir))).length ≤ 1023 ∧ '+' ∉ redir := by
  obtain ⟨-, -, hvars⟩ := h.read
  have hboth := lookup_link_iff h.bytes h.nul h.tokenText 1008
  dsimp only at hboth hvars
  rw [← hvars] at hboth
  rw [h.target, length_linkTarget, ← hboth]
  simp only [HttpdRead.toHttpRequest, HttpRequest.mk.injEq, true_and, lookup]

/-- **The portal's link leads back**: the request for it is always handed to the function that
authenticates, and with the token and the redirect that the link was made of exactly when its
target has at most 1023 characters and the redirect has no `+`.
SOURCE: http.c:366-385, 587-612, 656-689, api.c:381-612, 949-1018, protocol.c:340-406, 723-794 -/
theorem portalLink_iff (server : HttpdServer) (config : Config) (token redir : Text)
    (connection : HttpdConnection) (version rest : Text)
    (h : FollowsLink server config token redir connection version rest) :
    let read := httpdReadRequest connection.stack ⟨[], connection.pieces⟩
    read.rc = 0 ∧
      httpdProcessRequest server.files server.content read.request.path =
        .call .auth defaultContentType ∧
      (read.toHttpRequest connection.clientAddr =
          { clientAddr := connection.clientAddr, tok := some token, redir := some redir } ↔
        (requestTarget (httpAuthLink
          (httpMakeAuthtarget server.remote config token redir))).length ≤ 1023 ∧
          '+' ∉ redir) := by
  obtain ⟨hrc, hcall, -⟩ := h.read
  exact ⟨hrc, hcall, h.request_iff⟩

end Link

/-- The target of a link of that server. -/
def plainTarget : Text :=
  requestTarget (httpAuthLink (httpMakeAuthtarget plainServer.remote
    { gwAddress := "192.168.9.1".toList } "0a1b2c3d".toList "http://example.com/".toList))

/-- A connection over which the link is asked for. -/
def plainConnection : HttpdConnection :=
  { clientAddr := "10.0.0.2".toList
    pieces := [getRequest plainTarget "HTTP/1.0".toList "\r\n".toList]
    stack := List.replicate HTTP_MAX_LEN '\x00' }

theorem plainTarget_eq : plainTarget = '/' :: (plainServer.remote.authdir ++ '/' :: '?' ::
    encodedQuery (linkFields "http://example.com/".toList "0a1b2c3d".toList)) :=
  requestTarget_link _ (by decide) _ _

theorem plainTarget_length : plainTarget.length ≤ 1023 := by
  rw [plainTarget_eq]
  decide

/-- INTERNAL: it follows the link. -/
theorem plainConnection_follows : FollowsLink plainServer { gwAddress := "192.168.9.1".toList }
    "0a1b2c3d".toList "http://example.com/".toList plainConnection "HTTP/1.0".toList
    "\r\n".toList where
  address := by decide
  authdir := rfl
  denydir := rfl
  tokenText := by decide
  bytes := by decide
  nul := by decide
  stack := List.length_replicate ..
  versionText := by decide
  room := by
    change (getLine plainTarget "HTTP/1.0".toList).length < HTTP_MAX_LEN
    rw [plainTarget_eq]
    decide
  asked := List.append_nil _

/-- A link that is followed. -/
theorem portalLink_iff_sample :
    (httpdReadRequest plainConnection.stack ⟨[], plainConnection.pieces⟩).toHttpRequest
        plainConnection.clientAddr =
      { clientAddr := plainConnection.clientAddr
        tok := some "0a1b2c3d".toList
        redir := some "http://example.com/".toList } := by
  have hlink := portalLink_iff plainServer { gwAddress := "192.168.9.1".toList }
    "0a1b2c3d".toList "http://example.com/".toList plainConnection "HTTP/1.0".toList
    "\r\n".toList plainConnection_follows
  exact hlink.2.2.mpr ⟨plainTarget_length, by decide⟩

end WifiCat.Analysis
