import WifiCat.Analysis.AccessGrants
import WifiCat.Analysis.PortalLink
import WifiCat.Analysis.PositiveAnswers

/-!
# Logging in over the portal

A client that the portal knows follows the link that was made for its token: the bytes of its
request are read, its path leads to the function that authenticates, the variables carry the token
and the page it wanted, and the auth server is asked.  `login_iff` is the outcome of the whole.
-/

set_option autoImplicit false

namespace WifiCat.Analysis

open CommandProgram Scan

/-! ## Tokens are always there -/

/-- Every client on the list has a token. -/
def TokensSet (w : World) : Prop := ∀ c ∈ w.clients.firstclient, c.token ≠ none

/-- INTERNAL: a client gets a token when it is appended, and keeps it.
SOURCE: client_list.c:106-145, 191-216 -/
theorem kept_tokensSet : Kept TokensSet where
  add := by
    intro w m ip hw c hc
    simp only [addClient] at hc
    unfold clientListAddClient at hc
    split at hc
    · exact hw c hc
    · split at hc
      · exact hw c hc
      · split at hc
        · unfold clientListAppend at hc
          split at hc
          · exact hw c hc
          · rcases List.mem_append.mp hc with hc | hc
            · exact hw c hc
            · rw [List.mem_singleton.mp hc]
              exact Option.some_ne_none _
        · exact hw c hc
  delete := fun w fw p hw c hc => hw c (mem_of_clientListDelete hc)
  state := by
    intro w fw a state n hw c hc
    obtain ⟨d, hd, rfl⟩ := List.mem_map.mp hc
    have htoken := hw d hd
    dsimp only
    split <;> exact htoken
  counters := by
    intro w a counters _ hw c hc
    obtain ⟨d, hd, rfl⟩ := List.mem_map.mp hc
    have htoken := hw d hd
    dsimp only
    split <;> exact htoken
  maclist := fun _ _ _ hw => hw

/-! ## The action on a client that was just added -/

section Login

variable {arrival : Moment} {http : HttpMoment}
  {r : HttpRequest} {w : World} {h : Host} {client : Client} {redir : Text}

/-- INTERNAL: the client that `client_list_add_client` answers with is found again.
SOURCE: http.c:262-305, 374-383 -/
theorem find_addClient {config : Config} (hinv : PlainCounters config w)
    (hadded : (addClient arrival r.clientAddr w).1 = some client) :
    clientListFind r.clientAddr client.mac (addClient arrival r.clientAddr w).2.clients =
      some client := by
  have hmem := (clientListAddClient_mem w.config.maxclients arrival.arrival r.clientAddr
    w.clients).2 client hadded
  have hkeys := ((kept_plainCounters config).add w arrival r.clientAddr hinv).clients.key_nodup
  have hfind := clientListFind_of_mem hkeys hmem
  rwa [(addClient_key hadded).1] at hfind

/-- INTERNAL: an authentication that is asked for by a known client.
SOURCE: http.c:242-385 -/
theorem callbackAuth_iff (out : Outside) (auth : AuthServer) {config : Config}
    (hinv : PlainCounters config w) (htokens : TokensSet w)
    (hadded : (addClient arrival r.clientAddr w).1 = some client)
    (harp : arpGet http.arpTable r.clientAddr = some client.mac) (hredir : r.redir = some redir) :
    let after := runOn out (httpCallbackAuth auth arrival http r w) h
    (after.1.1 = some (.redirect redir) ∧ Authenticated client.ip client.mac after.1.2) ↔
      ∃ bytes, answerBytes auth http = some bytes ∧ Accepted http.leftover bytes := by
  have hfind := find_addClient hinv hadded
  have hmem := (clientListFind_eq_some hfind).1
  obtain ⟨token, htoken⟩ := Option.ne_none_iff_exists'.mp
    (kept_tokensSet.add w arrival r.clientAddr htokens client hmem)
  have hip := (addClient_key hadded).1
  dsimp only
  simp only [httpCallbackAuth, hadded, httpCallbackAction, httpDecodeAuthtarget, harp, hfind, htoken]
  rcases tokenVerify_cases auth http (r.tok.getD []) client.mac with
    ⟨hnone, hbytes⟩ | ⟨verified, hverified, hpos⟩
  · rw [hnone, hbytes]
    refine iff_of_false (fun hafter => ?_) (by simp)
    simp only [runOn, Prog.pure_eq, Prog.run_done] at hafter
    cases hafter.1
  · rw [hverified]
    dsimp only
    split
    · next hle =>
      refine iff_of_false (fun hafter => ?_) fun hanswer => ?_
      · simp only [runOn, Prog.pure_eq, Prog.run_done, tokensDoNotMatch] at hafter
        cases hafter.1
      · exact absurd (hpos.mpr hanswer) (not_lt.mpr hle)
    · next hle =>
      refine iff_of_true ?_ (hpos.mp (not_le.mp hle))
      have hlisted : Listed r.clientAddr client.mac (addClient arrival r.clientAddr w).2 := by
        rw [Listed, hfind]
        exact Option.some_ne_none client
      have hacted := (authenticated_iff_listed out (addClient arrival r.clientAddr w).2 h).mpr
        hlisted
      rw [← hip] at hacted
      simp only [runOn, Prog.run_bind, Prog.pure_eq, Prog.run_done, hredir,
        Option.getD_some] at hacted ⊢
      rw [← hip]
      exact ⟨trivial, hacted⟩

end Login

/-! ## From the bytes to the outcome -/

section Portal

variable {server : HttpdServer} {config : Config} {token redir : Text}
  {connection : HttpdConnection} {version rest : Text}

/-- INTERNAL: the thread of a connection over which a link is followed.
SOURCE: httpd_thread.c:53-93, api.c:949-1018 -/
theorem FollowsLink.thread (h : FollowsLink server config token redir connection version rest)
    (hfits : (requestTarget (httpAuthLink
      (httpMakeAuthtarget server.remote config token redir))).length ≤ 1023) (hplus : '+' ∉ redir)
    (moment : HttpdMoment) (w : World) :
    threadHttpd server moment connection w = (do
      let r ← httpCallbackAuth server.remote.toAuthServer moment.arrival moment.http
        { clientAddr := connection.clientAddr, tok := some token, redir := some redir } w
      pure (.callback r.1, r.2)) := by
  obtain ⟨hrc, hcall, -⟩ := h.read
  unfold threadHttpd
  dsimp only at hrc hcall ⊢
  rw [if_pos hrc, hcall]
  dsimp only [httpdCall]
  rw [h.request_iff.mpr ⟨hfits, hplus⟩]

/-- **Logging in**, in any state that a run on bytes leads to and that has room for the client: one
that follows a portal's link of at most 1023 characters to a page without a `+`, and that the ARP
table still knows by its MAC address, is authenticated and sent to the page it wanted exactly when
the auth server's answer is accepted.
SOURCE: httpd_thread.c:53-93, api.c:381-612, 949-1018, http.c:203-385, client_list.c:191-216 -/
theorem login_iff (out : Outside) (server : HttpdServer) (config : Config)
    (events : List GatewayEvent) (h : Host) (w : World) (h' : Host)
    (hrun : runOn out (gatewayRun server config events) h = (some w, h')) (token redir : Text)
    (connection : HttpdConnection) (version rest : Text)
    (hlink : FollowsLink server config token redir connection version rest)
    (hfits : (requestTarget (httpAuthLink
      (httpMakeAuthtarget server.remote config token redir))).length ≤ 1023) (hplus : '+' ∉ redir)
    (moment : HttpdMoment) (client : Client)
    (hadded : (addClient moment.arrival connection.clientAddr w).1 = some client)
    (harp : arpGet moment.http.arpTable connection.clientAddr = some client.mac) :
    let after := runOn out (threadHttpd server moment connection w) h'
    (after.1.1 = .callback (some (.redirect redir)) ∧
        Authenticated client.ip client.mac after.1.2) ↔
      ∃ bytes, answerBytes server.remote.toAuthServer moment.http = some bytes ∧
        Accepted moment.http.leftover bytes := by
  obtain ⟨hinv, -⟩ := gatewayRun_access hrun
  have htokens : TokensSet w := by
    obtain ⟨requests, hsession⟩ := daemonRun_of_gatewayRun hrun
    exact kept_tokensSet.of_run (fun fw c hc => by simp [clientListInit] at hc) hsession
  have hcallback := callbackAuth_iff out server.remote.toAuthServer (h := h')
    (r := { clientAddr := connection.clientAddr, tok := some token, redir := some redir })
    hinv.counters htokens hadded harp rfl
  dsimp only at hcallback ⊢
  rw [hlink.thread hfits hplus, ← hcallback]
  simp only [runOn, Prog.run_bind, Prog.pure_eq, Prog.run_done, HttpdReply.callback.injEq]

/-- An auth server that approves. -/
def approvingServer : HttpMoment :=
  { silentServer with
    net := { silentServer.net with chunks := ["HTTP/1.0 200 OK\r\n".toList, "\r\n1".toList] }
    leftover := 0 }

/-- A client that logs in. -/
theorem login_iff_sample :
    ∃ (w : World) (h' : Host) (client : Client), runOn obligingMachine
        (gatewayRun plainServer { gwAddress := "192.168.9.1".toList } []) emptyRouter = (some w, h') ∧
      client.mac = "00:11:22:33:44:55".toList ∧
      let after := runOn obligingMachine
        (threadHttpd plainServer ⟨sampleMoment 1, approvingServer⟩ plainConnection w) h'
      after.1.1 = .callback (some (.redirect "http://example.com/".toList)) ∧
        Authenticated client.ip client.mac after.1.2 := by
  have hcheck : checkRun obligingMachine { gwAddress := "192.168.9.1".toList } [] emptyRouter
      (fun w => (addClient (sampleMoment 1) plainConnection.clientAddr w).1.any fun client =>
        client.mac == "00:11:22:33:44:55".toList) = true := by
    decide +kernel
  obtain ⟨w, h', hreach, hstate⟩ := reaches_of_checkRun hcheck
  obtain ⟨client, hadded, hmac⟩ := (Option.any_eq_true _ _).mp hstate
  have hrun : runOn obligingMachine
      (gatewayRun plainServer { gwAddress := "192.168.9.1".toList } []) emptyRouter =
        (some w, h') := hreach.run
  have hbytes : answerBytes plainServer.remote.toAuthServer approvingServer =
      some "HTTP/1.0 200 OK\r\n\r\n1".toList := by
    decide +kernel
  have harp : arpGet approvingServer.arpTable plainConnection.clientAddr = some client.mac := by
    rw [eq_of_beq hmac]
    decide +kernel
  have hlogin := login_iff obligingMachine plainServer { gwAddress := "192.168.9.1".toList } []
    emptyRouter w h' hrun "0a1b2c3d".toList "http://example.com/".toList plainConnection
    "HTTP/1.0".toList "\r\n".toList plainConnection_follows plainTarget_length (by decide)
    ⟨sampleMoment 1, approvingServer⟩ client hadded harp
  have haccepted : Accepted 0 "HTTP/1.0 200 OK\r\n\r\n1".toList := by
    have hbody : strstrAfter CRLFCRLF (cString "HTTP/1.0 200 OK\r\n\r\n1".toList) =
        some "1".toList := by
      decide +kernel
    rw [Accepted, hbody]
  exact ⟨w, h', client, hrun, eq_of_beq hmac, hlogin.mpr ⟨_, hbytes, haccepted⟩⟩

end Portal

end WifiCat.Analysis
