import WifiCat.Analysis.TokenQuestion
import WifiCat.Model.FirstContact

/-!
# The redirect to the authenticator

`redirectFields` is how a browser and the authenticator read the redirect: the `Location`
line of the response, its URL, and the pairs of the URL's query.  The header buffer keeps
978 characters after the server's own header, and the encoder leaves `+` as it is.
-/

set_option autoImplicit false

namespace WifiCat.Analysis

open Scan

/-! ## Reading the response -/

/-- The name of the header. -/
def locationLabel : Text := "Location: ".toList

/-- The URL of the first `Location` line. -/
def locationUrl (headers : Text) : Option Text :=
  (fields '\n' headers).findSome? fun line =>
    if locationLabel.isPrefixOf line then some (line.drop locationLabel.length) else none

/-- The URL before its query, and the pairs of the query. -/
def redirectFields (headers : Text) : Option (Text × List (Text × Text)) := do
  let url ← locationUrl headers
  let (target, query) ← Query.splitUrl url
  let ps ← Query.formPairs query
  return (target, ps)

/-- Where the redirect leads.
SOURCE: http.c:427-430, 572 -/
def remoteTarget (remote : RemoteAuth) : Text :=
  "http://".toList ++ remote.authServer ++ ':' :: decimal (int32 remote.authPort) ++
    remote.authPath

/-- The fields of the redirect but the last.
SOURCE: http.c:427 -/
def leadingFields (remote : RemoteAuth) (authtarget : RemoteTarget) : List (Text × Text) :=
  [("uid".toList, decimal remote.uid), ("authaction".toList, authtarget.authaction),
    ("redir".toList, authtarget.redir), ("tok".toList, authtarget.token)]

/-- The fields of the redirect.
SOURCE: http.c:427 -/
def remoteFields (remote : RemoteAuth) (authtarget : RemoteTarget) (client : Client) :
    List (Text × Text) :=
  leadingFields remote authtarget ++ [("mac".toList, client.mac)]

/-- What the first contact has to tell about a client. -/
def contactFields (remote : RemoteAuth) (r : CapturedRequest) (w : World) (client : Client) :
    List (Text × Text) :=
  remoteFields remote
    (httpMakeAuthtarget remote w.config (client.token.getD [])
      (httpMakeRedir remote (origUrl r))) client

/-- The header that carries it. -/
def contactHeader (remote : RemoteAuth) (r : CapturedRequest) (w : World) (client : Client) :
    Text :=
  locationHeader (remoteUrl remote
    (httpMakeAuthtarget remote w.config (client.token.getD [])
      (httpMakeRedir remote (origUrl r))) client)

/-- The characters a `Location` header may have.
SOURCE: api.c:849-852 -/
def headerRoom : ℕ := HTTP_MAX_HEADERS - 2 - serverHeader.length

/-- The target's URL ends where its query is meant to begin. -/
def PlainTarget (target : Text) : Prop := '?' ∉ target ∧ '#' ∉ target ∧ '\n' ∉ target

/-! ## The encoder -/

theorem acceptable_keepsPlus : Query.KeepsPlus acceptable where
  percent := by decide
  amp := by decide
  eq := by decide
  plus := by decide

/-- INTERNAL: the second pass of the encoder finds no blank.
SOURCE: api.c:64-70 -/
theorem httpdUrlEncode_eq {s : Text} (hs : Query.Bytes s) :
    httpdUrlEncode s = Query.percentEncode acceptable s := by
  have hblank : ' ' ∉ Query.percentEncode acceptable s :=
    Query.KeepsPlus.not_mem (by decide) (by decide) (by decide) hs
  refine (List.map_congr_left fun c hc => ?_).trans (List.map_id _)
  rw [if_neg]
  · rfl
  · rintro rfl
    exact hblank hc

/-- INTERNAL: a number is written as it is. -/
theorem percentEncode_decimal (n : ℤ) :
    Query.percentEncode acceptable (decimal n) = decimal n := by
  refine Query.percentEncode_eq_self fun c hc => ?_
  rcases mem_decimal hc with rfl | hdigit
  · decide
  · have hall : ∀ d ∈ Finset.range 10, acceptable (Char.ofNat (48 + d)) = true := by decide
    have hbounds : 48 ≤ c.toNat ∧ c.toNat ≤ 57 := by
      simpa [Char.isDigit, UInt32.le_iff_toNat_le] using hdigit
    have hchar := hall (c.toNat - 48) (Finset.mem_range.mpr (by omega))
    rwa [show 48 + (c.toNat - 48) = c.toNat by omega, Char.ofNat_toNat] at hchar

/-- INTERNAL: the pieces a redirect is put together from. -/
theorem redirect_join {start label proto server port path name₁ name₂ name₃ name₄ name₅ value₁
    value₂ value₃ value₄ value₅ ask amp₂ amp₃ amp₄ amp₅ : Text} (hstart : start = label ++ proto)
    (hask : ask = '?' :: (name₁ ++ ['='])) (h₂ : amp₂ = '&' :: (name₂ ++ ['=']))
    (h₃ : amp₃ = '&' :: (name₃ ++ ['='])) (h₄ : amp₄ = '&' :: (name₄ ++ ['=']))
    (h₅ : amp₅ = '&' :: (name₅ ++ ['='])) :
    start ++ (server ++ ':' :: port ++ path ++ ask ++ value₁ ++ amp₂ ++ value₂ ++ amp₃ ++ value₃ ++
        amp₄ ++ value₄ ++ amp₅ ++ value₅) =
      label ++ ((proto ++ server ++ ':' :: port ++ path) ++ '?' :: Query.unpairs
        [(name₁, value₁), (name₂, value₂), (name₃, value₃), (name₄, value₄), (name₅, value₅)]) := by
  subst hstart hask h₂ h₃ h₄ h₅
  simp only [Query.unpairs, unfields, Query.unpair, List.map_cons, List.map_nil,
    List.intercalate_cons_cons, List.intercalate_singleton, List.append_assoc, List.cons_append,
    List.nil_append]

/-- INTERNAL: the pairs that are encoded, one by one. -/
theorem encodePairs_five {keep : Char → Bool} {name₁ name₂ name₃ name₄ name₅ value₁ value₂ value₃
    value₄ value₅ : Text} :
    Query.encodePairs keep ([(name₁, value₁), (name₂, value₂), (name₃, value₃), (name₄, value₄)] ++
        [(name₅, value₅)]) =
      Query.unpairs [(name₁, Query.percentEncode keep value₁),
        (name₂, Query.percentEncode keep value₂), (name₃, Query.percentEncode keep value₃),
        (name₄, Query.percentEncode keep value₄), (name₅, Query.percentEncode keep value₅)] := rfl

/-- INTERNAL: the header is its label, the target and the encoded fields.
SOURCE: http.c:427-437, 572 -/
theorem locationHeader_eq (remote : RemoteAuth) (authtarget : RemoteTarget) (client : Client)
    (hbytes : ∀ p ∈ remoteFields remote authtarget client, Query.Bytes p.2) :
    locationHeader (remoteUrl remote authtarget client) =
      locationLabel ++ (remoteTarget remote ++ '?' ::
        Query.encodePairs acceptable (remoteFields remote authtarget client)) := by
  have hvalue : ∀ p ∈ remoteFields remote authtarget client,
      httpdUrlEncode p.2 = Query.percentEncode acceptable p.2 :=
    fun p hp => httpdUrlEncode_eq (hbytes p hp)
  unfold remoteFields leadingFields at hvalue ⊢
  have hlast := hvalue _ (List.mem_append_right _ List.mem_cons_self)
  have hlead := fun p hp => hvalue p (List.mem_append_left _ (List.mem_cons_of_mem _ hp))
  have haction := hlead _ List.mem_cons_self
  have hredir := hlead _ (List.mem_cons_of_mem _ List.mem_cons_self)
  have htok := hlead _ (List.mem_cons_of_mem _ (List.mem_cons_of_mem _ List.mem_cons_self))
  dsimp only at hlast haction hredir htok
  unfold locationHeader remoteUrl remoteTarget
  simp only [haction, hredir, htok, hlast, encodePairs_five, percentEncode_decimal]
  exact redirect_join (by decide) (by decide) (by decide) (by decide) (by decide) (by decide)

/-! ## The header buffer -/

/-- INTERNAL: the first line of a text. -/
theorem fields_head (sep : Char) (s : Text) :
    ∃ ws, fields sep s = s.takeWhile (· != sep) :: ws := by
  induction s with
  | nil => exact ⟨[], rfl⟩
  | cons c s ih =>
    obtain ⟨ws, hs⟩ := ih
    by_cases hc : c = sep
    · exact ⟨fields sep s, by rw [hc, fields_cons_sep, List.takeWhile_cons_of_neg (by simp)]⟩
    · exact ⟨ws, by rw [fields_cons_of_ne hc hs, List.takeWhile_cons_of_pos (by simpa using hc)]⟩

/-- INTERNAL: the URL that is read of the response is the one that was written, up to what the
buffer holds and up to a line end.
SOURCE: api.c:846-856 -/
theorem locationUrl_addHeader (url : Text) :
    locationUrl (httpdAddHeader serverHeader (locationLabel ++ url)) =
      some ((url.take 968).takeWhile (· != '\n')) := by
  have hsize : (HTTP_MAX_HEADERS - 2 - serverHeader.length : ℤ) = 978 := by decide
  obtain ⟨first, hfirst, hserver⟩ : ∃ first : Text, fields '\n' serverHeader = [first, []] ∧
      serverHeader = first ++ ['\n'] ∧ '\n' ∉ first ∧ locationLabel.isPrefixOf first = false :=
    ⟨serverHeader.dropLast, by decide⟩
  obtain ⟨hserver, hsep, hother⟩ := hserver
  have hlabel : locationLabel.length = 10 ∧ '\n' ∉ locationLabel := by decide
  have htake : (locationLabel ++ url).take 978 = locationLabel ++ url.take 968 := by
    rw [List.take_append, List.take_of_length_le (by omega), hlabel.1]
  -- the line end that is added ends the same line
  have hline : ∀ tail, (tail = [] ∨ tail = ['\n']) →
      locationUrl (serverHeader ++ (locationLabel ++ url.take 968) ++ tail) =
        some ((url.take 968).takeWhile (· != '\n')) := by
    intro tail htail
    have hall : ∀ c ∈ locationLabel, (c != '\n') = true := fun c hc => by
      simpa using fun h : c = '\n' => hlabel.2 (h ▸ hc)
    obtain ⟨ws, hws⟩ := fields_head '\n' (locationLabel ++ (url.take 968 ++ tail))
    have hhead : (locationLabel ++ (url.take 968 ++ tail)).takeWhile (· != '\n') =
        locationLabel ++ (url.take 968).takeWhile (· != '\n') := by
      rw [List.takeWhile_append_of_pos hall]
      rcases htail with rfl | rfl
      · rw [List.append_nil]
      · rw [List.takeWhile_append]
        split
        · next hlen =>
          rw [List.takeWhile_cons_of_neg (by decide), List.append_nil,
            List.takeWhile_eq_self_iff.mpr (List.takeWhile_eq_self_iff.mp
              ((List.takeWhile_prefix _).eq_of_length hlen))]
        · rfl
    rw [locationUrl, hserver, List.append_assoc, List.append_assoc, List.append_assoc,
      List.singleton_append, fields_append_sep hsep, hws, hhead, List.findSome?_cons, hother]
    simp
  rw [httpdAddHeader, hsize]
  dsimp only
  rw [if_pos (by decide), show (978 : ℤ).toNat = 978 from rfl, htake]
  split
  · simpa using hline [] (Or.inl rfl)
  · exact hline ['\n'] (Or.inr rfl)

/-! ## What is read back -/

/-- INTERNAL: a MAC address that the list answers is one of the ARP table.
SOURCE: client_list.c:191-216 -/
theorem addClient_mac {moment : Moment} {ip : Text} {w : World} {client : Client}
    (h : (addClient moment ip w).1 = some client) : arpGet moment.arpTable ip = some client.mac := by
  rw [addClient] at h
  dsimp only at h
  rcases clientListAddClient_cases w.config.maxclients moment.arrival ip w.clients with
    ⟨hadd, -⟩ | ⟨mac, c, -, harp, hfind, hadd⟩ | ⟨mac, token, -, harp, -, hadd⟩
  · rw [hadd] at h
    cases h
  · rw [hadd] at h
    obtain rfl := Option.some.inj h
    rw [(clientListFind_eq_some hfind).2.2]
    exact harp
  · rw [hadd, clientListAppend] at h
    split at h
    · cases h
    · obtain rfl := Option.some.inj h
      exact harp

/-- INTERNAL: the text before the first `?` is the same in a URL and in its beginning. -/
theorem target_unique {t target query query' : Text} (hask : '?' ∉ t) (hask' : '?' ∉ target)
    (h : t ++ '?' :: query' <+: target ++ '?' :: query) : t = target := by
  obtain ⟨rest, h⟩ := h
  have hcut : ∀ a b : Text, '?' ∉ a → (a ++ '?' :: b).takeWhile (· != '?') = a := by
    intro a b ha
    have hall : ∀ c ∈ a, (c != '?') = true := fun c hc => by
      simpa using fun h : c = '?' => ha (h ▸ hc)
    rw [List.takeWhile_append_of_pos hall, List.takeWhile_cons_of_neg (by decide), List.append_nil]
  rw [← hcut t (query' ++ rest) hask, ← hcut target query hask', ← h, List.append_assoc,
    List.cons_append]

section Redirect

variable {remote : RemoteAuth} {authtarget : RemoteTarget} {client : Client}

/-- INTERNAL: the names of the fields mean themselves. -/
theorem remoteFields_names :
    ∀ p ∈ remoteFields remote authtarget client, Query.PlainName p.1 := by
  have hnames : ∀ name ∈ (remoteFields remote authtarget client).map Prod.fst,
      Query.PlainName name := by
    change ∀ name ∈ ["uid".toList, "authaction".toList, "redir".toList, "tok".toList,
      "mac".toList], Query.PlainName name
    decide
  exact fun p hp => hnames p.1 (List.mem_map_of_mem hp)

/-- INTERNAL: a query that was cut is read as the fields exactly when nothing was cut and no
field holds a `+`. -/
theorem formPairs_remoteFields_iff {query : Text}
    (hbytes : ∀ p ∈ remoteFields remote authtarget client, Query.Bytes p.2)
    (hmac : '%' ∉ client.mac)
    (hquery : query <+: Query.encodePairs acceptable (remoteFields remote authtarget client)) :
    Query.formPairs query = some (remoteFields remote authtarget client) ↔
      query = Query.encodePairs acceptable (remoteFields remote authtarget client) ∧
        ∀ p ∈ remoteFields remote authtarget client, '+' ∉ p.2 :=
  Query.formPairs_prefix_iff acceptable_keepsPlus remoteFields_names hbytes hmac hquery

/-- INTERNAL: the encoded fields hold no character that a URL or a header line ends at. -/
theorem not_mem_encodePairs {c : Char} (hkeep : acceptable c = false) (hpercent : c ≠ '%')
    (hhex : isHexDigit c = false) (hsep : c ≠ '&' ∧ c ≠ '=')
    (hname : ∀ p ∈ remoteFields remote authtarget client, c ∉ p.1)
    (hbytes : ∀ p ∈ remoteFields remote authtarget client, Query.Bytes p.2) :
    c ∉ Query.encodePairs acceptable (remoteFields remote authtarget client) := by
  intro hc
  obtain ⟨field, hfield, hc⟩ := mem_fields hc hsep.1
  rw [Query.fields_encodePairs acceptable_keepsPlus (by simp [remoteFields]) remoteFields_names
    hbytes] at hfield
  obtain ⟨p, hp, rfl⟩ := List.mem_map.mp hfield
  rcases List.mem_append.mp hc with hc | hc
  · exact hname p hp hc
  · rcases List.mem_cons.mp hc with hc | hc
    · exact hsep.2 hc
    · exact Query.KeepsPlus.not_mem hkeep hpercent hhex (hbytes p hp) hc

/-- INTERNAL: the URL that is read, and what is read of it. -/
theorem readRedirect_iff (hbytes : ∀ p ∈ remoteFields remote authtarget client, Query.Bytes p.2)
    (hmac : '%' ∉ client.mac) {headers : Text}
    (hheaders : headers = httpdAddHeader serverHeader
      (locationHeader (remoteUrl remote authtarget client))) :
    redirectFields headers = some (remoteTarget remote, remoteFields remote authtarget client) ↔
      (locationHeader (remoteUrl remote authtarget client)).length ≤ headerRoom ∧
        PlainTarget (remoteTarget remote) ∧
        ∀ p ∈ remoteFields remote authtarget client, '+' ∉ p.2 := by
  have hroom : headerRoom = 978 ∧ locationLabel.length = 10 := by decide
  rw [locationHeader_eq remote authtarget client hbytes] at hheaders ⊢
  have hurl := locationUrl_addHeader (remoteTarget remote ++ '?' ::
    Query.encodePairs acceptable (remoteFields remote authtarget client))
  rw [← hheaders] at hurl
  rw [List.length_append, hroom.1, hroom.2]
  have hnames : ∀ p ∈ remoteFields remote authtarget client, '#' ∉ p.1 ∧ '\n' ∉ p.1 := by
    have hall : ∀ name ∈ (remoteFields remote authtarget client).map Prod.fst,
        '#' ∉ name ∧ '\n' ∉ name := by
      change ∀ name ∈ ["uid".toList, "authaction".toList, "redir".toList, "tok".toList,
        "mac".toList], '#' ∉ name ∧ '\n' ∉ name
      decide
    exact fun p hp => hall p.1 (List.mem_map_of_mem hp)
  have hhash : '#' ∉ Query.encodePairs acceptable (remoteFields remote authtarget client) :=
    not_mem_encodePairs (by decide) (by decide) (by decide) (by decide)
      (fun p hp => (hnames p hp).1) hbytes
  have hline : '\n' ∉ Query.encodePairs acceptable (remoteFields remote authtarget client) :=
    not_mem_encodePairs (by decide) (by decide) (by decide) (by decide)
      (fun p hp => (hnames p hp).2) hbytes
  have hread := fun query => @formPairs_remoteFields_iff remote authtarget client query hbytes hmac
  generalize remoteFields remote authtarget client = ps at *
  generalize hfull : remoteTarget remote ++ '?' :: Query.encodePairs acceptable ps = full at *
  rw [redirectFields, hurl]
  simp only [bind, Option.bind_some]
  constructor
  · intro h
    obtain ⟨⟨target, query⟩, hsplit, h⟩ := Option.bind_eq_some_iff.mp h
    obtain ⟨ps', hps, h⟩ := Option.bind_eq_some_iff.mp h
    obtain ⟨rfl, rfl⟩ := Prod.mk.inj (Option.some.inj h)
    obtain ⟨hpre, hask, hhash'⟩ := Query.splitUrl_eq_some hsplit
    have hcut := (List.takeWhile_prefix (· != '\n')).trans (List.take_prefix 968 full)
    have hquery : query <+: Query.encodePairs acceptable ps' := by
      have hpre' := hpre.trans hcut
      rw [← hfull, List.prefix_append_right_inj, List.cons_prefix_cons] at hpre'
      exact hpre'.2
    obtain ⟨rfl, hplus⟩ := (hread query hquery).mp hps
    rw [hfull] at hpre
    -- the whole URL was read, so neither the buffer nor a line end cut it
    have hwhole := hpre.eq_of_length_le hcut.length_le
    have hlen : full.length ≤ 968 := by
      have hle := (List.takeWhile_prefix (l := full.take 968) (· != '\n')).length_le
      rw [← hwhole, List.length_take] at hle
      omega
    refine ⟨by omega, ⟨hask, hhash', fun hmem => ?_⟩, hplus⟩
    have hmem' : '\n' ∈ full := hfull ▸ List.mem_append_left _ hmem
    rw [hwhole] at hmem'
    simpa using List.mem_takeWhile_imp hmem'
  · rintro ⟨hlen, ⟨hask, hhash', hline'⟩, hplus⟩
    have hwhole : (full.take 968).takeWhile (· != '\n') = full := by
      rw [List.take_of_length_le (by omega)]
      refine List.takeWhile_eq_self_iff.mpr fun c hc => ?_
      rw [← hfull, List.mem_append, List.mem_cons] at hc
      rcases hc with hc | rfl | hc
      · simpa using fun h : c = '\n' => hline' (h ▸ hc)
      · decide
      · simpa using fun h : c = '\n' => hline (h ▸ hc)
    rw [hwhole, ← hfull, Query.splitUrl_append hask hhash' hhash, Option.bind_some,
      (hread _ (List.prefix_refl _)).mpr ⟨rfl, hplus⟩]
    rfl

/-- INTERNAL: a target without the signs that end one is the target that is read. -/
theorem readRedirect_target (hbytes : ∀ p ∈ remoteFields remote authtarget client,
      Query.Bytes p.2) (hask : '?' ∉ remoteTarget remote) {headers target : Text}
    (hheaders : headers = httpdAddHeader serverHeader
      (locationHeader (remoteUrl remote authtarget client))) {ps : List (Text × Text)}
    (h : redirectFields headers = some (target, ps)) : target = remoteTarget remote := by
  rw [locationHeader_eq remote authtarget client hbytes] at hheaders
  have hurl := locationUrl_addHeader (remoteTarget remote ++ '?' ::
    Query.encodePairs acceptable (remoteFields remote authtarget client))
  rw [← hheaders] at hurl
  rw [redirectFields, hurl] at h
  simp only [bind, Option.bind_some] at h
  obtain ⟨⟨target', query⟩, hsplit, h⟩ := Option.bind_eq_some_iff.mp h
  obtain ⟨ps', -, h⟩ := Option.bind_eq_some_iff.mp h
  obtain ⟨rfl, rfl⟩ := Prod.mk.inj (Option.some.inj h)
  obtain ⟨hpre, hask', -⟩ := Query.splitUrl_eq_some hsplit
  exact target_unique hask' hask
    (hpre.trans ((List.takeWhile_prefix _).trans (List.take_prefix 968 _)))

end Redirect

/-! ## The fields of the redirect -/

/-- INTERNAL: a captured `GET` request of a client is answered with the header.
SOURCE: http.c:159-198, 461-466, 567-579 -/
theorem httpFirstContact_redirect {remote : RemoteAuth} {moment : Moment} {r : CapturedRequest}
    {w : World} {client : Client} (hset : remote.remoteAuthAction.isSome = true)
    (hget : r.method = .get) (hclient : (addClient moment r.clientAddr w).1 = some client) :
    (httpFirstContact remote moment r w).1 =
      .redirect (httpdAddHeader serverHeader (contactHeader remote r w client)) := by
  obtain ⟨action, haction⟩ := Option.isSome_iff_exists.mp hset
  unfold httpFirstContact httpServeSplash
  simp only [hget, hclient, haction]
  rfl

/-- **The redirect to the authenticator carries its fields** exactly when the header fits the
room that `libhttpd` has for it, the target holds none of the signs that end one, and no
field holds a `+`.  For a target without these signs the same is said of the fields alone.
SOURCE: http.c:159-198, 416-445, 567-579, api.c:846-856, protocol.c:691-720 -/
theorem redirect_carries_iff (remote : RemoteAuth) (moment : Moment) (r : CapturedRequest)
    (w : World) {client : Client} (hset : remote.remoteAuthAction.isSome = true)
    (hget : r.method = .get) (hclient : (addClient moment r.clientAddr w).1 = some client)
    (hbytes : ∀ p ∈ contactFields remote r w client, Query.Bytes p.2) :
    ∃ headers, (httpFirstContact remote moment r w).1 = .redirect headers ∧
      (redirectFields headers = some (remoteTarget remote, contactFields remote r w client) ↔
        (contactHeader remote r w client).length ≤ headerRoom ∧
          PlainTarget (remoteTarget remote) ∧
          ∀ p ∈ contactFields remote r w client, '+' ∉ p.2) ∧
      (PlainTarget (remoteTarget remote) →
        ((redirectFields headers).map Prod.snd = some (contactFields remote r w client) ↔
          (contactHeader remote r w client).length ≤ headerRoom ∧
            ∀ p ∈ contactFields remote r w client, '+' ∉ p.2)) := by
  have hmac : '%' ∉ client.mac := (arpGet_plain (addClient_mac hclient)).not_mem (by decide)
  have hiff := readRedirect_iff hbytes hmac rfl
  refine ⟨_, httpFirstContact_redirect hset hget hclient, hiff, fun hplain => ?_⟩
  constructor
  · intro h
    obtain ⟨⟨target, ps⟩, hread, rfl⟩ := Option.map_eq_some_iff.mp h
    obtain rfl := readRedirect_target hbytes hplain.1 rfl hread
    obtain ⟨hlen, -, hplus⟩ := hiff.mp hread
    exact ⟨hlen, hplus⟩
  · rintro ⟨hlen, hplus⟩
    have hread := hiff.mpr ⟨hlen, hplain, hplus⟩
    exact congrArg (Option.map Prod.snd) hread

/-- A gateway without clients. -/
def contactWorld : World :=
  { config := { gwInterface := "br0".toList, gwAddress := "10.0.0.1".toList }
    fw := {}
    clients := clientListInit 20 }

/-- The client of its first contact. -/
def contactClient : Client :=
  { addr := 1, ip := "10.0.0.2".toList, mac := "00:11:22:33:44:55".toList,
    token := some "00000000".toList, idx := 0 }

/-- A request that is captured. -/
def capturedRequest (path query : Text) : CapturedRequest :=
  { clientAddr := "10.0.0.2".toList
    method := .get
    host := "example.com".toList
    path := path
    query := query }

theorem addClient_contactWorld (path query : Text) :
    (addClient (sampleMoment 1) (capturedRequest path query).clientAddr contactWorld).1 =
      some contactClient := by
  change (addClient (sampleMoment 1) "10.0.0.2".toList contactWorld).1 = some contactClient
  decide +kernel

/-- The redirect of a search carries all its fields. -/
theorem redirect_carries_iff_search :
    ∃ headers, (httpFirstContact {} (sampleMoment 1)
        (capturedRequest "/search".toList "q=50%25&page=2".toList) contactWorld).1 =
          .redirect headers ∧
      redirectFields headers = some (remoteTarget {}, contactFields {}
        (capturedRequest "/search".toList "q=50%25&page=2".toList) contactWorld
          contactClient) := by
  obtain ⟨headers, hreply, hiff, -⟩ := redirect_carries_iff {} (sampleMoment 1)
    (capturedRequest "/search".toList "q=50%25&page=2".toList) contactWorld (by decide) rfl
    (addClient_contactWorld _ _) (by decide +kernel)
  refine ⟨headers, hreply, hiff.mpr ⟨by decide +kernel, ?_, by decide +kernel⟩⟩
  exact ⟨by decide, by decide, by decide⟩

/-- A path of 901 characters, which `libhttpd` accepts, pushes the token and the MAC address
out of the header; a `+` of the query comes back as a blank.
SOURCE: http.c:159-198, api.c:846-856, protocol.c:686-720 -/
theorem redirect_loses_fields :
    ('/' :: List.replicate 900 'a').length ≤ 1023 ∧
    (∃ headers, (httpFirstContact {} (sampleMoment 1)
        (capturedRequest ('/' :: List.replicate 900 'a') []) contactWorld).1 = .redirect headers ∧
      (redirectFields headers).map Prod.snd ≠ some (contactFields {}
        (capturedRequest ('/' :: List.replicate 900 'a') []) contactWorld contactClient)) ∧
    ∃ headers, (httpFirstContact {} (sampleMoment 1)
        (capturedRequest "/".toList "q=a+b".toList) contactWorld).1 = .redirect headers ∧
      (redirectFields headers).map Prod.snd ≠ some (contactFields {}
        (capturedRequest "/".toList "q=a+b".toList) contactWorld contactClient) :=
  ⟨by decide +kernel,
    ⟨_, httpFirstContact_redirect (by decide) rfl (addClient_contactWorld _ _),
      by decide +kernel⟩,
    ⟨_, httpFirstContact_redirect (by decide) rfl (addClient_contactWorld _ _),
      by decide +kernel⟩⟩

end WifiCat.Analysis
