import WifiCat.Analysis.SessionInvariant
import WifiCat.Model.GatewayRun

/-!
# The daemon on bytes and the daemon on requests

Whatever arrives over a connection, all that it does to the daemon is a request of
`Model.Daemon`, or two: a client that is to be authenticated is added first.  So a run on bytes is
a run on requests, and what holds of every state that requests lead to holds of the daemon that
reads bytes.
-/

set_option autoImplicit false

namespace WifiCat.Analysis

open CommandProgram Netfilter Scan

/-! ## What an event asks for -/

/-- The action that a client's request leads to, if the auth server's answer is positive.
SOURCE: http.c:242-337 -/
def actionRequests (auth : AuthServer) (moment : HttpMoment) (r : HttpRequest)
    (action : AuthAction) (w : World) : List Request :=
  match arpGet moment.arpTable r.clientAddr with
  | none => []
  | some mac =>
    match clientListFind r.clientAddr mac w.clients with
    | none => []
    | some client =>
      match client.token with
      | none => []
      | some _ =>
        match tokenVerify auth moment (r.tok.getD []) mac with
        | none => []
        | some verified => if verified ≤ 0 then [] else [.authAction r.clientAddr mac action]

/-- The requests to the daemon that a call of the web server makes.
SOURCE: http.c:126-198, 366-397 -/
def callRequests (server : HttpdServer) (moment : HttpdMoment) (clientAddr : Text)
    (read : HttpdRead) (w : World) : HttpdOutcome → List Request
  | .invalidPath | .file _ _ _ => []
  | .call .index _ | .call .notFound _ =>
    match (read.captured clientAddr).method with
    | .post => []
    | .get => [.addClient moment.arrival clientAddr]
  | .call .auth _ =>
    let added := addClient moment.arrival clientAddr w
    .addClient moment.arrival clientAddr ::
      match added.1 with
      | none => []
      | some _ =>
        actionRequests server.remote.toAuthServer moment.http (read.toHttpRequest clientAddr)
          .makeAuthenticated added.2
  | .call .deny _ =>
    actionRequests server.remote.toAuthServer moment.http (read.toHttpRequest clientAddr)
      .makeDeauthenticated w

/-- The requests that an event makes. -/
def eventRequests (server : HttpdServer) (w : World) : GatewayEvent → List Request
  | .web moment connection =>
    let read := httpdReadRequest connection.stack ⟨[], connection.pieces⟩
    if read.rc = 0 then
      callRequests server moment connection.clientAddr read w
        (httpdProcessRequest server.files server.content read.request.path)
    else []
  | .control moment beyond ending chunks fuel =>
    ((threadNdsctlHandler beyond ending chunks fuel).bind fun call =>
      call.bind (NdsctlCall.request moment)).toList
  | .timer input => [.refresh input]

/-! ## One event -/

section Event

variable {server : HttpdServer} {moment : HttpdMoment} {w : World}

@[simp] theorem session_nil (w : World) : session [] w = pure w := rfl

@[simp] theorem session_singleton (request : Request) (w : World) :
    session [request] w = serve w request := by
  rw [session, List.foldlM_cons]
  exact bind_pure (serve w request)

/-- INTERNAL: a request to the daemon after a client was added. -/
theorem session_addClient (m : Moment) (ip : Text) (requests : List Request) (w : World) :
    session (.addClient m ip :: requests) w = session requests (addClient m ip w).2 := rfl

/-- INTERNAL: what `http_nodogsplash_callback_action` does to the daemon.
SOURCE: http.c:242-352 -/
theorem callbackAction_session (auth : AuthServer) (http : HttpMoment) (r : HttpRequest)
    (action : AuthAction) :
    Prod.snd <$> httpCallbackAction auth http r (httpDecodeAuthtarget r) action w =
      session (actionRequests auth http r action w) w := by
  unfold httpCallbackAction actionRequests httpDecodeAuthtarget
  dsimp only
  cases arpGet http.arpTable r.clientAddr with
  | none => rfl
  | some mac =>
    cases hfind : clientListFind r.clientAddr mac w.clients with
    | none =>
      simp only [hfind]
      rfl
    | some client =>
      cases htoken : client.token with
      | none =>
        simp only [hfind, htoken]
        rfl
      | some token =>
        simp only [hfind, htoken]
        cases tokenVerify auth http (r.tok.getD []) mac with
        | none => rfl
        | some verified =>
          dsimp only
          split
          · rfl
          · rw [session_singleton, serve, map_bind]
            conv_rhs => rw [← bind_pure (authClientAction r.clientAddr mac action w)]
            congr 1
            funext w'
            cases action <;> rfl

/-- INTERNAL: what a call does to the daemon.
SOURCE: http.c:126-198, 366-397 -/
theorem httpdCall_session (clientAddr : Text) (read : HttpdRead) (outcome : HttpdOutcome) :
    Prod.snd <$> httpdCall server moment clientAddr read w outcome =
      session (callRequests server moment clientAddr read w outcome) w := by
  have hcontact : (httpFirstContact server.remote moment.arrival (read.captured clientAddr) w).2 =
      match (read.captured clientAddr).method with
      | .post => w
      | .get => (addClient moment.arrival clientAddr w).2 := by
    unfold httpFirstContact
    cases (read.captured clientAddr).method with
    | post => rfl
    | get =>
      dsimp only [HttpdRead.captured]
      cases hadded : (addClient moment.arrival clientAddr w).1 <;> rfl
  cases outcome with
  | invalidPath => rfl
  | file path contentType content => rfl
  | call callback contentType =>
    cases callback with
    | index | notFound =>
      dsimp only [httpdCall, callRequests]
      rw [map_pure, hcontact]
      cases (read.captured clientAddr).method <;> rfl
    | auth =>
      dsimp only [httpdCall, callRequests]
      rw [session_addClient, map_bind, httpCallbackAuth]
      dsimp only [HttpdRead.toHttpRequest]
      cases hadded : (addClient moment.arrival clientAddr w).1 with
      | none => rfl
      | some client =>
        dsimp only
        rw [← callbackAction_session]
        exact (map_eq_pure_bind _ _).symm
    | deny =>
      dsimp only [httpdCall, callRequests]
      rw [map_bind, ← callbackAction_session]
      exact (map_eq_pure_bind _ _).symm

/-- INTERNAL: **an event is the requests it makes**.
SOURCE: httpd_thread.c:53-93, ndsctl_thread.c:154-238 -/
theorem serveEvent_session (server : HttpdServer) (w : World) (event : GatewayEvent) :
    serveEvent server w event = session (eventRequests server w event) w := by
  cases event with
  | web moment connection =>
    unfold serveEvent eventRequests threadHttpd
    dsimp only
    split
    · exact httpdCall_session _ _ _
    · rfl
  | control moment beyond ending chunks fuel =>
    dsimp only [serveEvent, eventRequests]
    generalize threadNdsctlHandler beyond ending chunks fuel = handled
    cases handled with
    | none => rfl
    | some call =>
      dsimp only [serveCall, Option.bind_some]
      generalize call.bind (NdsctlCall.request moment) = request
      cases request with
      | none => rfl
      | some request => exact (session_singleton request w).symm
  | timer input => exact (session_singleton (.refresh input) w).symm

theorem length_eventRequests (server : HttpdServer) (w : World) (event : GatewayEvent) :
    (eventRequests server w event).length ≤ 2 := by
  have haction : ∀ (auth : AuthServer) http r action (w : World),
      (actionRequests auth http r action w).length ≤ 1 := by
    intro auth http r action w
    unfold actionRequests
    repeat' split
    all_goals simp
  cases event with
  | web moment connection =>
    unfold eventRequests callRequests
    dsimp only
    split
    · split
      · simp
      · simp
      · split <;> simp
      · split <;> simp
      · rw [List.length_cons]
        split
        · simp
        · exact Nat.succ_le_succ (haction _ _ _ _ _)
      · exact (haction _ _ _ _ _).trans (by omega)
    · simp
  | control moment beyond ending chunks fuel =>
    dsimp only [eventRequests]
    generalize ((threadNdsctlHandler beyond ending chunks fuel).bind fun call =>
      call.bind (NdsctlCall.request moment)) = request
    cases request <;> simp
  | timer input => simp [eventRequests]

end Event

/-! ## Runs -/

theorem session_append (requests requests' : List Request) (w : World) :
    session (requests ++ requests') w = session requests w >>= session requests' := by
  rw [session, List.foldlM_append]
  rfl

/-- INTERNAL: events are requests, which depend on what happens on the way. -/
theorem serveEvents_session (out : Outside) (server : HttpdServer) (events : List GatewayEvent)
    (w : World) (h : Host) :
    ∃ requests : List Request, requests.length ≤ 2 * events.length ∧
      runOn out (serveEvents server events w) h = runOn out (session requests w) h := by
  induction events generalizing w h with
  | nil => exact ⟨[], le_refl _, rfl⟩
  | cons event events ih =>
    obtain ⟨requests, hlength, hrun⟩ :=
      ih (runOn out (serveEvent server w event) h).1 (runOn out (serveEvent server w event) h).2
    refine ⟨eventRequests server w event ++ requests, ?_, ?_⟩
    · have hevent := length_eventRequests server w event
      rw [List.length_append, List.length_cons]
      omega
    · rw [session_append, ← serveEvent_session, serveEvents, List.foldlM_cons]
      simp only [runOn, Prog.run_bind] at hrun ⊢
      exact hrun

/-- **The daemon on bytes is the daemon on requests**: for every run on connections and timers
there are requests, at most two for each of them, that lead to the same state of the daemon and of
the machine.
SOURCE: gateway.c:281-370, httpd_thread.c:53-93, ndsctl_thread.c:154-238, http.c:126-397 -/
theorem gatewayRun_refines (out : Outside) (server : HttpdServer) (config : Config)
    (events : List GatewayEvent) (h : Host) :
    ∃ requests : List Request, requests.length ≤ 2 * events.length ∧
      runOn out (gatewayRun server config events) h = runOn out (daemonRun config requests) h := by
  simp only [runOn, gatewayRun, daemonRun, Prog.run_bind]
  by_cases hrc : (Prog.run (Host.answer out) (startDaemon config) h).1.1 = 0
  · simp only [hrc, ne_eq, not_true_eq_false, if_false, Prog.run_map]
    obtain ⟨requests, hlength, hrun⟩ := serveEvents_session out server events
      (Prog.run (Host.answer out) (startDaemon config) h).1.2
      (Prog.run (Host.answer out) (startDaemon config) h).2
    refine ⟨requests, hlength, ?_⟩
    simp only [runOn] at hrun
    rw [hrun]
  · refine ⟨[], Nat.zero_le _, ?_⟩
    simp only [hrc, ne_eq, not_false_eq_true, if_true]

end WifiCat.Analysis
