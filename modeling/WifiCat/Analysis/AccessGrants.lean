import WifiCat.Analysis.Dispatch
import WifiCat.Analysis.GatewayRefinement
import WifiCat.Analysis.Lineage
import WifiCat.Analysis.PortalSafety
import WifiCat.Analysis.ServerApproval

/-!
# Where access comes from

A client is let through when its record is in the state of an authenticated one.  Two kinds of
events bring a record there: a connection that asks for the authenticating directory from the
client's address, about which the auth server's answer is accepted, and a control connection that
names the address.  So, over a whole run, every packet that is taken for an authenticated client's
goes back to one of them.
-/

set_option autoImplicit false

namespace WifiCat.Analysis

open CommandProgram Netfilter Scan

/-! ## Access -/

section Access

/-- A client with these addresses is recorded as authenticated. -/
def HasAccess (config : Config) (w : World) (k : Text × Text) : Prop :=
  ∃ c ∈ w.clients.firstclient, clientKey c = k ∧ c.fwConnectionState = config.fwMarkAuthenticated

/-- What holds of the daemon between two events, whatever becomes of its commands. -/
structure AccessInv (config : Config) (w : World) : Prop where
  counters : PlainCounters config w
  mark : w.fw.fwMarkAuthenticated = config.fwMarkAuthenticated
  fresh : fwMarkPreauthenticated ≠ config.fwMarkAuthenticated

/-- A change of the daemon's state brings access only to the addresses in `S`. -/
structure Grants (config : Config) (S : Text × Text → Prop) (w w' : World) : Prop where
  mark : w'.fw.fwMarkAuthenticated = w.fw.fwMarkAuthenticated
  access : ∀ k, HasAccess config w' k → HasAccess config w k ∨ S k

variable {config : Config} {S : Text × Text → Prop} {w w' : World}

/-- INTERNAL: access is brought by what authenticates a record: a new one is not authenticated.
SOURCE: client_list.c:129 -/
theorem Descends.grants {N : Client → Prop} (h : Descends S N w w')
    (hnew : ∀ c, N c → c.fwConnectionState ≠ config.fwMarkAuthenticated) : Grants config S w w' := by
  refine ⟨h.mark, fun k ⟨c', hc', hkey, hstate⟩ => ?_⟩
  obtain ⟨c, hc, hid, hold | ⟨hallowed, -⟩⟩ := h.record c' hc'
  · rw [hold] at hstate
    rcases hc with hc | hc
    · exact Or.inl ⟨c, hc, (clientKey_of_identity hid).symm.trans hkey, hstate⟩
    · exact absurd hstate (hnew c hc)
  · rw [hkey] at hallowed
    exact Or.inr hallowed

theorem AccessInv.not_authenticated (hinv : AccessInv config w) {m : Moment} {ip : Text}
    {c : Client} (h : NewRecord m ip c) : c.fwConnectionState ≠ config.fwMarkAuthenticated :=
  h.state ▸ hinv.fresh

/-- INTERNAL: what a request lets through.
SOURCE: auth.c:91-134, ndsctl_thread.c:275-458, firewall.c:143-199 -/
theorem grants_serve (hinv : AccessInv config w) (request : Request) :
    EndsWith (Grants config (requestGrants request) w) (serve w request) := by
  refine Prog.always_mono (descends_serve hinv.counters request) (fun _ h => h) fun w' hw' =>
    hw'.grants fun c hc => ?_
  cases request with
  | addClient m ip => exact hinv.not_authenticated hc
  | ndsctlAuth m arg => exact hinv.not_authenticated hc
  | authAction ip mac action => exact hc.elim
  | refresh input => exact hc.elim
  | ndsctlMac request arg => exact hc.elim
  | ndsctlDeauth arg => exact hc.elim

/-- INTERNAL: a request keeps the invariant. -/
theorem AccessInv.serve (hinv : AccessInv config w) (request : Request) (out : Outside) (h : Host) :
    AccessInv config (runOn out (serve w request) h).1 := by
  have hgrants := (grants_serve hinv request).runOn out h
  refine ⟨?_, hgrants.mark.trans hinv.mark, hinv.fresh⟩
  exact ((kept_plainCounters config).serve hinv.counters request).runOn out h

/-- INTERNAL: requests keep the invariant, and bring access only where one of them does. -/
theorem session_access (hinv : AccessInv config w) (requests : List Request) (out : Outside)
    (h : Host) :
    AccessInv config (runOn out (session requests w) h).1 ∧
      ∀ k, HasAccess config (runOn out (session requests w) h).1 k →
        HasAccess config w k ∨ ∃ request ∈ requests, requestGrants request k := by
  simp only [runOn, session, Prog.run_foldlM]
  constructor
  · exact Run.invariant_foldl (I := fun s : World × Host => AccessInv config s.1)
      (fun s request hs => hs.serve request out s.2) requests hinv
  · intro k
    exact Run.mem_view_foldl (I := fun s : World × Host => AccessInv config s.1)
      (V := fun s => HasAccess config s.1)
      (fun s request hs => hs.serve request out s.2)
      (fun s request hs k => ((grants_serve hs request).runOn out s.2).access k) requests hinv

end Access

/-! ## Events -/

section Events

variable {out : Outside} {server : HttpdServer} {config : Config} {w : World}

/-- What authenticates the client with these addresses: its own connection, which asks for a path
in the authenticating directory, while an answer of the auth server arrives that is accepted; or a
control connection that names its IP address. -/
def Authenticates (server : HttpdServer) : GatewayEvent → Text × Text → Prop
  | .web moment connection, k =>
    let read := httpdReadRequest connection.stack ⟨[], connection.pieces⟩
    connection.clientAddr = k.1 ∧ read.rc = 0 ∧ '/' ∈ strncpyInto HTTP_MAX_URL read.request.path ∧
      pathPlace (strncpyInto HTTP_MAX_URL read.request.path) = dirPlace server.remote.authdir ∧
      arpGet moment.http.arpTable k.1 = some k.2 ∧
      ∃ bytes, answerBytes server.remote.toAuthServer moment.http = some bytes ∧
        Accepted moment.http.leftover bytes
  | .control moment beyond ending chunks fuel, k =>
    threadNdsctlHandler beyond ending chunks fuel = some (some (.auth, some k.1)) ∧
      arpGet moment.arpTable k.1 = some k.2
  | .timer _, _ => False

/-- INTERNAL: the function that authenticates is called for the paths of its directory. -/
theorem place_of_auth {path contentType : Text}
    (h : httpdProcessRequest server.files server.content path = .call .auth contentType) :
    '/' ∈ strncpyInto HTTP_MAX_URL path ∧
      pathPlace (strncpyInto HTTP_MAX_URL path) = dirPlace server.remote.authdir := by
  rw [HttpdServer.content, processRequest_eq_dispatch] at h
  dsimp only at h
  split at h
  · next hslash =>
    refine ⟨hslash, ?_⟩
    by_contra hauth
    unfold dispatch httpdSendFile at h
    dsimp only at h
    rw [if_neg hauth] at h
    split_ifs at h <;> cases h
  · cases h

/-- INTERNAL: an action is asked for only when the answer is accepted.
SOURCE: http.c:242-337 -/
theorem of_mem_actionRequests {auth : AuthServer} {http : HttpMoment} {r : HttpRequest}
    {action : AuthAction} {request : Request} (h : request ∈ actionRequests auth http r action w) :
    ∃ mac, request = .authAction r.clientAddr mac action ∧
      arpGet http.arpTable r.clientAddr = some mac ∧
      ∃ bytes, answerBytes auth http = some bytes ∧ Accepted http.leftover bytes := by
  unfold actionRequests at h
  split at h
  · cases h
  · next mac harp =>
    split at h
    · cases h
    · split at h
      · cases h
      · split at h
        · cases h
        · next verified hverified =>
          split at h
          · cases h
          · next hpos =>
            rcases tokenVerify_cases auth http (r.tok.getD []) mac with
              ⟨hnone, -⟩ | ⟨verified', hverified', hiff⟩
            · rw [hnone] at hverified
              cases hverified
            · rw [hverified', Option.some.injEq] at hverified
              rw [hverified] at hiff
              exact ⟨mac, List.mem_singleton.mp h, harp, hiff.mp (not_le.mp hpos)⟩

/-- INTERNAL: the requests of an event bring access only to clients that it authenticates. -/
theorem authenticates_of_grants {event : GatewayEvent} {request : Request} {k : Text × Text}
    (h : request ∈ eventRequests server w event) (hk : requestGrants request k) :
    Authenticates server event k := by
  cases event with
  | web moment connection =>
    dsimp only [eventRequests] at h
    split at h
    · next hrc =>
      generalize hcall : httpdProcessRequest server.files server.content _ = outcome at h
      cases outcome with
      | invalidPath => cases h
      | file path contentType content => cases h
      | call callback contentType =>
        cases callback with
        | index | notFound =>
          dsimp only [callRequests] at h
          split at h
          · cases h
          · rw [List.mem_singleton.mp h] at hk
            exact hk.elim
        | auth =>
          obtain ⟨hslash, hplace⟩ := place_of_auth hcall
          dsimp only [callRequests] at h
          rcases List.mem_cons.mp h with rfl | h
          · exact hk.elim
          · split at h
            · cases h
            · obtain ⟨mac, rfl, harp, hanswer⟩ := of_mem_actionRequests h
              obtain ⟨-, rfl⟩ := hk
              exact ⟨rfl, hrc, hslash, hplace, harp, hanswer⟩
        | deny =>
          obtain ⟨mac, rfl, -⟩ := of_mem_actionRequests h
          exact absurd hk.1 (by decide)
    · cases h
  | control moment beyond ending chunks fuel =>
    dsimp only [eventRequests] at h
    obtain ⟨call, hcall, hrequest⟩ := Option.bind_eq_some_iff.mp (Option.mem_toList.mp h)
    obtain ⟨⟨handler, arg⟩, rfl, hmake⟩ := Option.bind_eq_some_iff.mp hrequest
    cases handler <;> cases arg <;> cases hmake
    · exact hk.elim
    · obtain ⟨rfl, hmac⟩ := hk
      exact ⟨hcall, hmac⟩
    · exact hk.elim
  | timer input =>
    rw [List.mem_singleton.mp h] at hk
    exact hk.elim

/-- INTERNAL: the requests of an event, on a state and a machine. -/
theorem serveEvent_access {s : World × Host} (hs : AccessInv config s.1) (server : HttpdServer)
    (event : GatewayEvent) (out : Outside) :
    AccessInv config (runOn out (serveEvent server s.1 event) s.2).1 ∧
      ∀ k, HasAccess config (runOn out (serveEvent server s.1 event) s.2).1 k →
        HasAccess config s.1 k ∨ Authenticates server event k := by
  obtain ⟨hinv, haccess⟩ := session_access hs (eventRequests server s.1 event) out s.2
  rw [← serveEvent_session] at hinv haccess
  refine ⟨hinv, fun k hk => (haccess k hk).imp_right ?_⟩
  rintro ⟨request, hrequest, hgrants⟩
  exact authenticates_of_grants hrequest hgrants

/-- INTERNAL: events keep the invariant. -/
theorem serveEvents_inv (server : HttpdServer) (hinv : AccessInv config w)
    (events : List GatewayEvent) (out : Outside) (h : Host) :
    AccessInv config (runOn out (serveEvents server events w) h).1 := by
  simp only [runOn, serveEvents, Prog.run_foldlM]
  exact Run.invariant_foldl (I := fun s : World × Host => AccessInv config s.1)
    (fun s event hs => (serveEvent_access hs server event out).1) events hinv

/-- INTERNAL: they bring access only to clients that one of them authenticates. -/
theorem serveEvents_access (server : HttpdServer) (hinv : AccessInv config w)
    (events : List GatewayEvent) (out : Outside) (h : Host) {k : Text × Text}
    (hk : HasAccess config (runOn out (serveEvents server events w) h).1 k) :
    HasAccess config w k ∨ ∃ event ∈ events, Authenticates server event k := by
  simp only [runOn, serveEvents, Prog.run_foldlM] at hk
  exact Run.mem_view_foldl (I := fun s : World × Host => AccessInv config s.1)
    (V := fun s => HasAccess config s.1)
    (fun s event hs => (serveEvent_access hs server event out).1)
    (fun s event hs => (serveEvent_access hs server event out).2) events hinv hk

/-- INTERNAL: a run that has not ended started well, and is the events from there on.
SOURCE: gateway.c:281-290 -/
theorem gatewayRun_cases {events : List GatewayEvent} {h h' : Host}
    (hrun : runOn out (gatewayRun server config events) h = (some w, h')) :
    (runOn out (startDaemon config) h).1.1 = 0 ∧
      runOn out (serveEvents server events (runOn out (startDaemon config) h).1.2)
        (runOn out (startDaemon config) h).2 = (w, h') := by
  simp only [runOn, gatewayRun, Prog.run_bind] at hrun ⊢
  split at hrun
  · exact absurd (congrArg Prod.fst hrun) (by simp)
  · next hrc =>
    rw [Prog.run_map, Prod.mk.injEq, Option.some.injEq] at hrun
    exact ⟨not_not.mp hrc, Prod.ext hrun.1 hrun.2⟩

/-- INTERNAL: a start that succeeded.
SOURCE: gateway.c:284, 399, fw_iptables.c:196-290 -/
theorem start_access {h : Host} (hrc : (runOn out (startDaemon config) h).1.1 = 0) :
    AccessInv config (runOn out (startDaemon config) h).1.2 ∧
      ∀ k, ¬HasAccess config (runOn out (startDaemon config) h).1.2 k := by
  have hmarks := (fwInitMarks_result config {}).result out h
  simp only [runOn, startDaemon, iptablesFwInit, Prog.run_bind, Prog.pure_eq, Prog.run_done]
    at hrc hmarks ⊢
  have hready := hmarks.2 (BitVec.or_eq_zero_iff.mp hrc).1
  refine ⟨⟨⟨rfl, clientListInit_inv config.maxclients, by simp [clientListInit]⟩,
    hready.authenticated, hready.accepted.2.2.2.2.2.symm⟩, ?_⟩
  rintro k ⟨c, hc, -⟩
  simp [clientListInit] at hc

/-- INTERNAL: **a run on bytes**: what holds in the state it leads to, and where access comes from.
SOURCE: gateway.c:281-370 -/
theorem gatewayRun_access {events : List GatewayEvent} {h h' : Host}
    (hrun : runOn out (gatewayRun server config events) h = (some w, h')) :
    AccessInv config w ∧
      ∀ k, HasAccess config w k → ∃ event ∈ events, Authenticates server event k := by
  obtain ⟨hrc, hevents⟩ := gatewayRun_cases hrun
  obtain ⟨hinv, hnone⟩ := start_access hrc
  have hend := serveEvents_inv server hinv events out (runOn out (startDaemon config) h).2
  have haccess := fun k => serveEvents_access server hinv events out
    (runOn out (startDaemon config) h).2 (k := k)
  rw [hevents] at hend haccess
  exact ⟨hend, fun k hk => (haccess k hk).resolve_left (hnone k)⟩

/-! ## A run from its bytes -/

/-- A control connection over which a client is authenticated. -/
def authConnection : GatewayEvent :=
  .control (sampleMoment 1) [] .endOfFile ["auth 10.".toList, "0.0.2\r\n\r\n".toList] 4

/-- INTERNAL: the request it makes. -/
theorem eventRequests_authConnection (server : HttpdServer) (w : World) :
    eventRequests server w authConnection =
      [.ndsctlAuth (sampleMoment 1) "10.0.0.2".toList] := by
  have hcall : threadNdsctlHandler [] .endOfFile ["auth 10.".toList, "0.0.2\r\n\r\n".toList] 4 =
      some (some (.auth, some "10.0.0.2".toList)) := by
    decide +kernel
  dsimp only [eventRequests, authConnection]
  rw [hcall]
  rfl

/-- INTERNAL: a run over that connection, by the run on its request. -/
theorem gatewayRun_authConnection (out : Outside) (server : HttpdServer) (config : Config)
    (h : Host) :
    runOn out (gatewayRun server config [authConnection]) h =
      runOn out (daemonRun config [.ndsctlAuth (sampleMoment 1) "10.0.0.2".toList]) h := by
  have hserve : serveEvents server [authConnection] =
      session [.ndsctlAuth (sampleMoment 1) "10.0.0.2".toList] := by
    funext w
    rw [serveEvents, List.foldlM_cons, serveEvent_session, eventRequests_authConnection]
    exact bind_pure _
  rw [gatewayRun, daemonRun, hserve]

/-! ## Packets -/

/-- INTERNAL: a run on bytes that has not ended is one on requests.
SOURCE: gateway.c:281-290, 399 -/
theorem daemonRun_of_gatewayRun {events : List GatewayEvent} {h h' : Host}
    (hrun : runOn out (gatewayRun server config events) h = (some w, h')) :
    ∃ requests, runOn out (daemonRun config requests) h = (some w, h') := by
  obtain ⟨hrc, hevents⟩ := gatewayRun_cases hrun
  obtain ⟨requests, -, hsession⟩ := serveEvents_session out server events
    (runOn out (startDaemon config) h).1.2 (runOn out (startDaemon config) h).2
  refine ⟨requests, ?_⟩
  rw [hevents] at hsession
  simp only [runOn, daemonRun, Prog.run_bind] at hrc hsession ⊢
  simp only [hrc, ne_eq, not_true_eq_false, if_false, Prog.run_map, ← hsession]

/-- INTERNAL: a packet that is taken for an authenticated client's comes from one that is.
SOURCE: fw_iptables.c:278-444, 746-800 -/
theorem client_of_seen {H : Type} (R : Reading H) {events : List GatewayEvent} {h h' : Host}
    (hrun : runOn out (gatewayRun server config events) h = (some w, h')) (hclean : h'.clean)
    (p : Packet H) (hmark : p.mark = 0)
    (huntrusted : onList R w.config .trusted p.header = false)
    (hseen : markMatches config.fwMarkAuthenticated w.fw.markmask
      (preroutingMark R h'.tables 3 p) = true) :
    ∃ c ∈ w.clients.firstclient, c.fwConnectionState = config.fwMarkAuthenticated ∧
      fromClient R c p.header = true := by
  obtain ⟨requests, hsession⟩ := daemonRun_of_gatewayRun hrun
  have hstate := Reaches.state ⟨hsession, hclean⟩
  by_contra hno
  push Not at hno
  have hunknown : ∀ c ∈ authenticatedClients w.fw w.clients, fromClient R c p.header = false := by
    intro c hc
    obtain ⟨hmem, hcstate⟩ := mem_authenticatedClients.mp hc
    rw [hstate.marks.authenticated] at hcstate
    exact Bool.eq_false_iff.mpr (hno c hmem hcstate)
  have hmarked : preroutingMark R h'.tables 3 p = 0 ∨
      preroutingMark R h'.tables 3 p = w.fw.fwMarkBlocked := by
    rw [unknown_mark R hstate hmark huntrusted hunknown]
    split
    · exact Or.inr rfl
    · exact Or.inl rfl
  have hunseen := markMatches_unknown hstate.marks hmarked (Or.inl rfl)
  rw [hstate.marks.authenticated, hseen] at hunseen
  cases hunseen

/-- **What is taken for an authenticated client's goes back to an event**: in every run on bytes in
which the firewall's commands worked, an unmarked packet that leaves mangle `PREROUTING` with the
authenticated mark, and whose MAC address is not trusted, comes from a client that an event of the
run authenticated.
SOURCE: gateway.c:281-370, fw_iptables.c:278-444, 746-800, http.c:203-385, ndsctl_thread.c:275-307 -/
theorem classified_by_event {H : Type} (R : Reading H) (out : Outside) (server : HttpdServer)
    (config : Config) (events : List GatewayEvent) (h : Host) (w : World) (h' : Host)
    (hrun : runOn out (gatewayRun server config events) h = (some w, h')) (hclean : h'.clean)
    (p : Packet H) (hmark : p.mark = 0)
    (huntrusted : onList R w.config .trusted p.header = false)
    (hseen : markMatches config.fwMarkAuthenticated w.fw.markmask
      (preroutingMark R h'.tables 3 p) = true) :
    ∃ c ∈ w.clients.firstclient, fromClient R c p.header = true ∧
      ∃ event ∈ events, Authenticates server event (c.ip, c.mac) := by
  obtain ⟨c, hc, hstate, hfrom⟩ := client_of_seen R hrun hclean p hmark huntrusted hseen
  obtain ⟨event, hevent, hauth⟩ := (gatewayRun_access hrun).2 _ ⟨c, hc, rfl, hstate⟩
  exact ⟨c, hc, hfrom, event, hevent, hauth⟩

/-- A run whose end can be computed: no command failed, and the daemon's state and the machine's
pass a check. -/
def checkEnd (out : Outside) (config : Config) (requests : List Request) (h : Host)
    (check : World → Host → Bool) : Bool :=
  match runOn out (daemonRun config requests) h with
  | (some w, h') => decide h'.clean && check w h'
  | (none, _) => false

theorem reaches_of_checkEnd {requests : List Request} {h : Host} {check : World → Host → Bool}
    (hcheck : checkEnd out config requests h check = true) :
    ∃ w h', Reaches out config requests h w h' ∧ check w h' = true := by
  unfold checkEnd at hcheck
  split at hcheck
  · next w h' hrun =>
    rw [Bool.and_eq_true, decide_eq_true_eq] at hcheck
    exact ⟨w, h', ⟨hrun, hcheck.1⟩, hcheck.2⟩
  · cases hcheck

/-- The packets of the client of the connection. -/
theorem classified_by_event_sample :
    ∃ w h', runOn obligingMachine (gatewayRun plainServer {} [authConnection]) emptyRouter =
        (some w, h') ∧
      ∃ c ∈ w.clients.firstclient, fromClient macReading c samplePacket.header = true ∧
        ∃ event ∈ [authConnection], Authenticates plainServer event (c.ip, c.mac) := by
  have hcheck : checkEnd obligingMachine {} [.ndsctlAuth (sampleMoment 1) "10.0.0.2".toList]
      emptyRouter (fun w h' => !onList macReading w.config .trusted samplePacket.header &&
        markMatches ({} : Config).fwMarkAuthenticated w.fw.markmask
          (preroutingMark macReading h'.tables 3 samplePacket)) = true := by
    decide +kernel
  obtain ⟨w, h', hreach, hstate⟩ := reaches_of_checkEnd hcheck
  simp only [Bool.and_eq_true, Bool.not_eq_true'] at hstate
  have hrun := (gatewayRun_authConnection obligingMachine plainServer {} emptyRouter).trans
    hreach.run
  exact ⟨w, h', hrun, classified_by_event macReading _ plainServer _ _ _ _ _ hrun hreach.clean _
    rfl hstate.1 hstate.2⟩

end Events

end WifiCat.Analysis
