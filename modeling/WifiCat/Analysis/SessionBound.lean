import WifiCat.Analysis.AccessGrants
import WifiCat.Analysis.TimeoutSweep

/-!
# Access ends in time

A sweep that can read the counters leaves only clients whose two limits have not run out, and what
is recorded or heard of afterwards is younger than the sweep.  So between two sweeps no client is
let through that came longer than the forced limit before the last one, or was heard of longer than
the idle limit before it; how often the sweeps are made bounds every session.
-/

set_option autoImplicit false

namespace WifiCat.Analysis

open CommandProgram Netfilter Scan

/-! ## Limits -/

/-- A limit of the configuration in seconds: so many checks; a negative one lets no client stay. -/
def limit (config : Config) (checks : ℤ) : ℤ := max (config.checkinterval * checks) 0

/-- A sweep at this time leaves the record, or one that follows it does. -/
structure Lasting (config : Config) (last : ℤ) (c : Client) : Prop where
  heard : last ≤ c.counters.lastUpdated + limit config config.clienttimeout
  made : last ≤ c.addedTime + limit config config.clientforceout

/-- The limits that a sweep reads are those of the start. -/
structure SameLimits (config config' : Config) : Prop where
  check : config'.checkinterval = config.checkinterval
  idle : config'.clienttimeout = config.clienttimeout
  force : config'.clientforceout = config.clientforceout

section Records

variable {config : Config} {w : World} {last : ℤ} {c : Client} {P : Client → Prop}

/-- INTERNAL: requests about MAC addresses change other fields of the configuration. -/
theorem kept_sameLimits (config : Config) : Kept fun w => SameLimits config w.config where
  add _ _ _ h := h
  delete _ _ _ h := h
  state _ _ _ _ _ h := h
  counters _ _ _ _ h := h
  maclist := by
    intro w request arg h
    obtain ⟨l, macs, hconfig⟩ := requestList_config request arg w.config
    rw [hconfig]
    exact ⟨h.check, h.idle, h.force⟩

theorem limit_nonneg (config : Config) (checks : ℤ) : 0 ≤ limit config checks := le_max_right _ _

/-- INTERNAL: what is heard of after the sweep is young enough. -/
theorem Lasting.of_young (hheard : last ≤ c.counters.lastUpdated) (hmade : last ≤ c.addedTime) :
    Lasting config last c := by
  constructor
  · exact hheard.trans (le_add_of_nonneg_right (limit_nonneg _ _))
  · exact hmade.trans (le_add_of_nonneg_right (limit_nonneg _ _))

/-- INTERNAL: to be authenticated changes nothing of it. -/
theorem Lasting.state (h : Lasting config last c) (state : BitVec 32) :
    Lasting config last { c with fwConnectionState := state } :=
  ⟨h.heard, h.made⟩

/-! ## The records on the list -/

/-- Every record on the list has the property. -/
def Records (P : Client → Prop) (w : World) : Prop := ∀ c ∈ w.clients.firstclient, P c

/-- INTERNAL: a record is removed; the list is all that matters of the state.
SOURCE: auth.c:121-126, firewall.c:172-189 -/
theorem removeClient_clients (client : Client) (w : World) :
    EndsWith (fun w' => w'.config = w.config ∧
        w'.clients = clientListDelete (some client.addr) w.clients) (removeClient client w) := by
  unfold removeClient
  exact Prog.always_bind (Prog.always_trivial _) fun fw _ => ⟨rfl, rfl⟩

/-- INTERNAL: the other records stay as they are. -/
theorem records_removeClient (h : Records P w) (client : Client) :
    EndsWith (Records P) (removeClient client w) := by
  refine Prog.always_mono (removeClient_clients client w) (fun _ hq => hq) fun w' hw' c hc => ?_
  rw [hw'.2] at hc
  exact h c (mem_of_clientListDelete hc)

/-- INTERNAL: an action changes the state of a record, or removes one.
SOURCE: auth.c:91-134 -/
theorem records_authClientAction (hP : ∀ c, P c → ∀ s, P { c with fwConnectionState := s })
    (h : Records P w) (ip mac : Text) (action : AuthAction) :
    EndsWith (Records P) (authClientAction ip mac action w) := by
  unfold authClientAction
  split
  · exact h
  · next client _ =>
    cases action with
    | makeDeauthenticated => exact records_removeClient h client
    | makeAuthenticated =>
      dsimp only
      split
      · refine Prog.always_bind (Prog.always_trivial _) fun access _ c hc => ?_
        obtain ⟨d, hd, rfl⟩ := List.mem_map.mp hc
        split
        · exact hP d (h d hd) _
        · exact h d hd
      · exact h

/-- INTERNAL: a record is added.
SOURCE: client_list.c:92-145, 191-216 -/
theorem records_addClient {m : Moment} {ip : Text} (h : Records P w)
    (hnew : ∀ c, NewRecord m ip c → P c) : Records P (addClient m ip w).2 :=
  fun c hc => (record_of_addClient hc).elim (h c) (hnew c)

end Records

/-! ## A sweep -/

section Sweep

variable {config : Config} {w : World} {last : ℤ} {input : RefreshInput}

/-- INTERNAL: counting packets leaves a record as old as it was, and may hear of it now.
SOURCE: fw_iptables.c:909-926 -/
theorem lasting_updateOutgoing {now : ℤ} (hnow : last ≤ now) (line : CounterLine) {cl : ClientList}
    (h : ∀ c ∈ cl.firstclient, Lasting config last c) :
    ∀ c ∈ (updateOutgoing now line cl).firstclient, Lasting config last c := by
  intro c hc
  unfold updateOutgoing at hc
  split at hc
  · split at hc
    · exact h c hc
    · split at hc
      · obtain ⟨d, hd, rfl⟩ := List.mem_map.mp hc
        split
        · exact ⟨hnow.trans (le_add_of_nonneg_right (limit_nonneg _ _)), (h d hd).made⟩
        · exact h d hd
      · exact h c hc
  · exact h c hc

/-- INTERNAL: packets to the client are not heard of.
SOURCE: fw_iptables.c:948-964 -/
theorem lasting_updateIncoming (line : CounterLine) {cl : ClientList}
    (h : ∀ c ∈ cl.firstclient, Lasting config last c) :
    ∀ c ∈ (updateIncoming line cl).firstclient, Lasting config last c := by
  intro c hc
  unfold updateIncoming at hc
  split at hc
  · split at hc
    · exact h c hc
    · split at hc
      · obtain ⟨d, hd, rfl⟩ := List.mem_map.mp hc
        split
        · exact ⟨(h d hd).heard, (h d hd).made⟩
        · exact h d hd
      · exact h c hc
  · exact h c hc

/-- INTERNAL: **reading the counters**, whether or not it succeeds.
SOURCE: fw_iptables.c:880-970 -/
theorem lasting_countersUpdate (hread : ∀ n, last ≤ input.readAt n) {cl : ClientList}
    (h : ∀ c ∈ cl.firstclient, Lasting config last c) :
    ∀ c ∈ (iptablesFwCountersUpdate input cl).2.firstclient, Lasting config last c := by
  unfold iptablesFwCountersUpdate
  cases input.outgoing with
  | none => exact h
  | some lines =>
    have hout : ∀ c ∈ (lines.zipIdx.foldl
        (fun cl l => updateOutgoing (input.readAt l.2) l.1 cl) cl).firstclient,
        Lasting config last c :=
      Run.invariant_foldl (I := fun cl : ClientList => ∀ c ∈ cl.firstclient, Lasting config last c)
        (fun cl l hcl => lasting_updateOutgoing (hread l.2) l.1 hcl) lines.zipIdx h
    cases input.incoming with
    | none => exact hout
    | some lines' =>
      exact Run.invariant_foldl
        (I := fun cl : ClientList => ∀ c ∈ cl.firstclient, Lasting config last c)
        (fun cl l hcl => lasting_updateIncoming l hcl) lines' hout

/-- The limits are numbers that the daemon can compare with. -/
structure FitLimits (config : Config) : Prop where
  idle : FitsInt (config.checkinterval * config.clienttimeout)
  force : FitsInt (config.checkinterval * config.clientforceout)

/-- INTERNAL: a record whose round is over lasts, or is gone.
SOURCE: firewall.c:168-189 -/
theorem lasting_of_not_timedOut (hfits : FitLimits config) (hlimits : SameLimits config w.config) {now : ℤ}
    (hnow : last ≤ now) {c : Client} (hstays : ¬timedOut now w c) : Lasting config last c := by
  obtain ⟨hidle, hforce⟩ := not_or.mp hstays
  rw [hlimits.check, hlimits.idle, int32_of_fitsInt hfits.idle, not_le] at hidle
  rw [hlimits.check, hlimits.force, int32_of_fitsInt hfits.force, not_le] at hforce
  constructor
  · have hmax : config.checkinterval * config.clienttimeout ≤ limit config config.clienttimeout :=
      le_max_left _ _
    omega
  · have hmax : config.checkinterval * config.clientforceout ≤ limit config config.clientforceout :=
      le_max_left _ _
    omega

/-- INTERNAL: a record that is removed is gone. -/
theorem not_mem_clientListDelete {maxclients : ℤ} {cl : ClientList} {c : Client}
    (hinv : ClientListInv maxclients cl) (hc : c ∈ cl.firstclient) :
    c ∉ (clientListDelete (some c.addr) cl).firstclient := by
  rw [clientListDelete_eq_keepOnly hinv hc]
  simp [keepOnly]

/-- INTERNAL: **the walk**: after it every record has had its round, and lasts.  The induction is on
the nodes that are left; each of the others on the list lasts already.
SOURCE: firewall.c:158-195 -/
theorem records_walk (hfits : FitLimits config) {maxclients : ℤ} {clock : ℕ → ℤ}
    (hclock : ∀ n, last ≤ clock n) {nodes : List Client} (k : ℕ)
    (hlimits : SameLimits config w.config) (hinv : ClientListInv maxclients w.clients)
    (hnodes : ∀ c ∈ nodes, c ∈ w.clients.firstclient) (hnd : nodes.Nodup)
    (hdone : ∀ c ∈ w.clients.firstclient, c ∈ nodes ∨ Lasting config last c) :
    EndsWith (Records (Lasting config last))
      ((nodes.zipIdx k).foldlM (fun w n => refreshClient (clock n.2) n.1 w) w) := by
  induction nodes generalizing w k with
  | nil =>
    intro c hc
    exact (hdone c hc).resolve_left (List.not_mem_nil)
  | cons node nodes ih =>
    obtain ⟨hnode, hnd⟩ := List.nodup_cons.mp hnd
    have hmem : node ∈ w.clients.firstclient := hnodes node List.mem_cons_self
    have hrest : ∀ c ∈ nodes, c ∈ w.clients.firstclient := fun c hc =>
      hnodes c (List.mem_cons_of_mem _ hc)
    classical
    rw [List.zipIdx_cons, List.foldlM_cons, refreshClient_of_mem hinv hmem]
    split
    · -- the node leaves the list
      refine Prog.always_bind (removeClient_clients node w) fun w' ⟨hconfig, hclients⟩ => ?_
      refine ih (k + 1) ?_ ?_ (fun c hc => ?_) hnd fun c hc => ?_
      · rw [hconfig]
        exact hlimits
      · rw [hclients]
        exact client_list_delete_inv hinv _
      · rw [hclients]
        exact mem_clientListDelete hinv hmem (hrest c hc) (by rintro rfl; exact hnode hc)
      · rw [hclients] at hc
        rcases hdone c (mem_of_clientListDelete hc) with hleft | hlasts
        · rcases List.mem_cons.mp hleft with rfl | hleft
          · exact absurd hc (not_mem_clientListDelete hinv hmem)
          · exact Or.inl hleft
        · exact Or.inr hlasts
    · next hstays =>
      rw [pure_bind]
      refine ih (k + 1) hlimits hinv hrest hnd fun c hc => ?_
      rcases hdone c hc with hleft | hlasts
      · rcases List.mem_cons.mp hleft with rfl | hleft
        · exact Or.inr (lasting_of_not_timedOut hfits hlimits (hclock k) hstays)
        · exact Or.inl hleft
      · exact Or.inr hlasts

end Sweep

/-! ## Requests -/

section Requests

variable {config : Config} {w : World} {last : ℤ}

/-- What holds of the daemon since a sweep at this time. -/
structure Timely (config : Config) (last : ℤ) (w : World) : Prop where
  counters : PlainCounters config w
  limits : SameLimits config w.config
  lasting : Records (Lasting config last) w

/-- No clock that the request reads is behind the last sweep, and those of a sweep are in order. -/
def requestOnTime (last : ℤ) : Request → Prop
  | .addClient m _ => last ≤ m.time
  | .ndsctlAuth m _ => last ≤ m.time
  | .refresh input => (∀ n, last ≤ input.readAt n) ∧ ∀ n, input.now 0 ≤ input.now n
  | _ => True

/-- The time of the last sweep after a request; one that could not read the counters is none. -/
def requestSwept (last : ℤ) : Request → ℤ
  | .refresh input => if input.outgoing.isSome && input.incoming.isSome then input.now 0 else last
  | _ => last

/-- INTERNAL: when the counters are read.
SOURCE: fw_iptables.c:893-898, 932-937 -/
theorem countersUpdate_fst (input : RefreshInput) (cl : ClientList) :
    (iptablesFwCountersUpdate input cl).1 = (input.outgoing.isSome && input.incoming.isSome) := by
  unfold iptablesFwCountersUpdate
  cases input.outgoing with
  | none => rfl
  | some lines => cases input.incoming <;> rfl

/-- INTERNAL: **the sweep**: a record that is left was young enough when it had its round.
SOURCE: firewall.c:143-199 -/
theorem records_refresh (hfits : FitLimits config) (hw : Timely config last w)
    {input : RefreshInput} (htime : requestOnTime last (.refresh input)) :
    EndsWith (Records (Lasting config (requestSwept last (.refresh input))))
      (fwRefreshClientList input w) := by
  have hread := lasting_countersUpdate htime.1 hw.lasting
  have hinv := countersUpdate_inv hw.counters.clients input
  unfold fwRefreshClientList requestSwept
  dsimp only
  rw [countersUpdate_fst]
  cases input.outgoing.isSome && input.incoming.isSome with
  | false => exact hread
  | true =>
    have hnd := List.Nodup.of_map _ hinv.addr_nodup
    exact records_walk (w := { w with clients := (iptablesFwCountersUpdate input w.clients).2 })
      hfits htime.2 0 hw.limits hinv (fun c hc => hc) hnd fun c hc => Or.inl hc

/-- INTERNAL: a record that is added on time lasts.
SOURCE: client_list.c:92-145 -/
theorem NewRecord.lasting {m : Moment} {ip : Text} {c : Client} (h : NewRecord m ip c)
    (htime : last ≤ m.time) : Lasting config last c := by
  apply Lasting.of_young
  · rw [h.counters]
    exact htime
  · rw [h.time]
    exact htime

/-- INTERNAL: the records after a request. -/
theorem records_serve (hfits : FitLimits config) (hw : Timely config last w) (request : Request)
    (htime : requestOnTime last request) :
    EndsWith (Records (Lasting config (requestSwept last request))) (serve w request) := by
  have hstate : ∀ c, Lasting config last c → ∀ s,
      Lasting config last { c with fwConnectionState := s } := fun c hc s => hc.state s
  cases request with
  | addClient m ip => exact records_addClient hw.lasting fun c hc => hc.lasting htime
  | authAction ip mac action => exact records_authClientAction hstate hw.lasting ip mac action
  | refresh input => exact records_refresh hfits hw htime
  | ndsctlMac request arg =>
    exact Prog.always_bind (Prog.always_trivial _) fun r _ => hw.lasting
  | ndsctlAuth m arg =>
    have hadded : Records (Lasting config last) (addClient m arg w).2 :=
      records_addClient hw.lasting fun c hc => hc.lasting htime
    simp only [serve, ndsctlAuth, map_eq_pure_bind]
    refine Prog.always_bind (P := fun r => Records (Lasting config last) r.2) ?_ ?_
    rotate_left
    · intro r hr
      exact hr
    split
    · exact hadded
    · exact Prog.always_bind (records_authClientAction hstate hadded _ _ _) fun w' hw' => hw'
  | ndsctlDeauth arg =>
    simp only [serve, ndsctlDeauth, map_eq_pure_bind]
    refine Prog.always_bind (P := fun r => Records (Lasting config last) r.2) ?_ ?_
    rotate_left
    · intro r hr
      exact hr
    split
    · exact hw.lasting
    · exact Prog.always_bind (records_authClientAction hstate hw.lasting _ _ _) fun w' hw' => hw'

/-- INTERNAL: **one request**, on a state and a machine. -/
theorem Timely.serve (hfits : FitLimits config) (hw : Timely config last w) (request : Request)
    (htime : requestOnTime last request) (out : Outside) (h : Host) :
    Timely config (requestSwept last request) (runOn out (serve w request) h).1 where
  counters := ((kept_plainCounters config).serve hw.counters request).runOn out h
  limits := ((kept_sameLimits config).serve hw.limits request).runOn out h
  lasting := (records_serve hfits hw request htime).runOn out h

/-- INTERNAL: requests without a sweep. -/
theorem Timely.session (hfits : FitLimits config) (hw : Timely config last w)
    {requests : List Request}
    (htime : ∀ r ∈ requests, requestOnTime last r ∧ requestSwept last r = last) (out : Outside)
    (h : Host) : Timely config last (runOn out (session requests w) h).1 := by
  simp only [runOn, WifiCat.session, Prog.run_foldlM]
  induction requests generalizing w h with
  | nil => exact hw
  | cons request requests ih =>
    obtain ⟨hontime, hswept⟩ := htime request List.mem_cons_self
    have hserve := hw.serve hfits request hontime out h
    rw [hswept] at hserve
    exact ih hserve (fun r hr => htime r (List.mem_cons_of_mem _ hr)) _

end Requests

/-! ## Events -/

section Events

variable {out : Outside} {server : HttpdServer} {config : Config} {w : World} {last : ℤ}

/-- No clock that is read for the event is behind the last sweep. -/
def eventOnTime (last : ℤ) : GatewayEvent → Prop
  | .web moment _ => last ≤ moment.arrival.time
  | .control moment _ _ _ _ => last ≤ moment.time
  | .timer input => requestOnTime last (.refresh input)

/-- The time of the last sweep after an event. -/
def sweptAt (last : ℤ) : GatewayEvent → ℤ
  | .timer input => requestSwept last (.refresh input)
  | _ => last

/-- The clocks of a run never go back behind a sweep. -/
def InOrder : ℤ → List GatewayEvent → Prop
  | _, [] => True
  | last, event :: events => eventOnTime last event ∧ InOrder (sweptAt last event) events

/-- INTERNAL: what a client asks for is no sweep, and adds records of its time. -/
theorem onTime_of_mem_callRequests {moment : HttpdMoment} {clientAddr : Text} {read : HttpdRead}
    {outcome : HttpdOutcome} {request : Request} (htime : last ≤ moment.arrival.time)
    (h : request ∈ callRequests server moment clientAddr read w outcome) :
    requestOnTime last request ∧ requestSwept last request = last := by
  cases outcome with
  | invalidPath => cases h
  | file path contentType content => cases h
  | call callback contentType =>
    cases callback with
    | index | notFound =>
      dsimp only [callRequests] at h
      split at h
      · cases h
      · rw [List.mem_singleton.mp h]
        exact ⟨htime, rfl⟩
    | auth =>
      dsimp only [callRequests] at h
      rcases List.mem_cons.mp h with rfl | h
      · exact ⟨htime, rfl⟩
      · split at h
        · cases h
        · obtain ⟨mac, rfl, -⟩ := of_mem_actionRequests h
          exact ⟨trivial, rfl⟩
    | deny =>
      obtain ⟨mac, rfl, -⟩ := of_mem_actionRequests h
      exact ⟨trivial, rfl⟩

/-- INTERNAL: nor is what a control connection asks for. -/
theorem onTime_of_request {moment : Moment} (htime : last ≤ moment.time) {call : NdsctlCall}
    {request : Request} (h : call.request moment = some request) :
    requestOnTime last request ∧ requestSwept last request = last := by
  obtain ⟨handler, arg⟩ := call
  cases handler <;> cases arg <;> cases h
  all_goals first | exact ⟨htime, rfl⟩ | exact ⟨trivial, rfl⟩

/-- INTERNAL: **one event**. -/
theorem Timely.event (hfits : FitLimits config) (hw : Timely config last w)
    (server : HttpdServer) (event : GatewayEvent) (htime : eventOnTime last event) (out : Outside)
    (h : Host) : Timely config (sweptAt last event) (runOn out (serveEvent server w event) h).1 := by
  rw [serveEvent_session]
  cases event with
  | web moment connection =>
    refine hw.session hfits (fun r hr => ?_) out h
    dsimp only [eventRequests] at hr
    split at hr
    · exact onTime_of_mem_callRequests htime hr
    · cases hr
  | control moment beyond ending chunks fuel =>
    refine hw.session hfits (fun r hr => ?_) out h
    dsimp only [eventRequests] at hr
    obtain ⟨call, -, hrequest⟩ := Option.bind_eq_some_iff.mp (Option.mem_toList.mp hr)
    obtain ⟨call', -, hmake⟩ := Option.bind_eq_some_iff.mp hrequest
    exact onTime_of_request htime hmake
  | timer input =>
    rw [eventRequests, session_singleton]
    exact hw.serve hfits (.refresh input) htime out h

/-- INTERNAL: events, one after the other. -/
theorem Timely.events (hfits : FitLimits config) (hw : Timely config last w)
    (server : HttpdServer) {events : List GatewayEvent} (horder : InOrder last events)
    (out : Outside) (h : Host) :
    Timely config (events.foldl sweptAt last) (runOn out (serveEvents server events w) h).1 := by
  simp only [runOn, serveEvents, Prog.run_foldlM]
  induction events generalizing w h last with
  | nil => exact hw
  | cons event events ih => exact ih (hw.event hfits server event horder.1 out h) horder.2 _

/-- INTERNAL: nobody is recorded at the start. -/
theorem start_timely {h : Host} (last : ℤ) (hrc : (runOn out (startDaemon config) h).1.1 = 0) :
    Timely config last (runOn out (startDaemon config) h).1.2 where
  counters := (start_access hrc).1.counters
  limits := by
    simp only [runOn, startDaemon, Prog.run_bind, Prog.pure_eq, Prog.run_done]
    exact ⟨rfl, rfl, rfl⟩
  lasting := by
    intro c hc
    simp only [runOn, startDaemon, Prog.run_bind, Prog.pure_eq, Prog.run_done] at hc
    simp [clientListInit] at hc

/-- **Access ends in time**: in every run on bytes in which the firewall's commands worked and the
clocks never went back behind a sweep, with limits that fit an `int`, an unmarked packet that leaves
mangle `PREROUTING` with the authenticated mark, and whose MAC address is not trusted, comes from a
client that was recorded at most the forced limit, and heard of at most the idle limit, before the
last sweep that could read the counters.
SOURCE: gateway.c:281-370, auth.c:59-88, firewall.c:143-199, fw_iptables.c:746-800, 880-970,
client_list.c:92-145 -/
theorem access_ends_in_time {H : Type} (R : Reading H) (out : Outside) (server : HttpdServer)
    (config : Config) (start : ℤ) (events : List GatewayEvent) (h : Host) (w : World) (h' : Host)
    (hrun : runOn out (gatewayRun server config events) h = (some w, h')) (hclean : h'.clean)
    (hfits : FitLimits config) (horder : InOrder start events) (p : Packet H) (hmark : p.mark = 0)
    (huntrusted : onList R w.config .trusted p.header = false)
    (hseen : markMatches config.fwMarkAuthenticated w.fw.markmask
      (preroutingMark R h'.tables 3 p) = true) :
    ∃ c ∈ w.clients.firstclient, fromClient R c p.header = true ∧
      events.foldl sweptAt start ≤
        c.addedTime + max (config.checkinterval * config.clientforceout) 0 ∧
      events.foldl sweptAt start ≤
        c.counters.lastUpdated + max (config.checkinterval * config.clienttimeout) 0 := by
  obtain ⟨c, hc, -, hfrom⟩ := client_of_seen R hrun hclean p hmark huntrusted hseen
  obtain ⟨hrc, hevents⟩ := gatewayRun_cases hrun
  have hend := (start_timely start hrc).events hfits server horder out
    (runOn out (startDaemon config) h).2
  rw [hevents] at hend
  have hlasting := hend.lasting c hc
  exact ⟨c, hc, hfrom, hlasting.made, hlasting.heard⟩

/-- A sweep that hears of the client. -/
def sampleSweep : RefreshInput where
  outgoing := some [⟨100, "MARK".toList, "10.0.0.2".toList⟩]
  incoming := some []
  readAt _ := 4
  now _ := 5

/-- INTERNAL: a run over the connection and the sweep, by the run on their requests. -/
theorem gatewayRun_sampleSweep (out : Outside) (server : HttpdServer) (config : Config) (h : Host) :
    runOn out (gatewayRun server config [authConnection, .timer sampleSweep]) h =
      runOn out (daemonRun config
        [.ndsctlAuth (sampleMoment 1) "10.0.0.2".toList, .refresh sampleSweep]) h := by
  have hserve : serveEvents server [authConnection, .timer sampleSweep] =
      session [.ndsctlAuth (sampleMoment 1) "10.0.0.2".toList, .refresh sampleSweep] := by
    funext w
    rw [serveEvents, List.foldlM_cons, serveEvent_session, eventRequests_authConnection,
      session_singleton, session, List.foldlM_cons]
    rfl
  rw [gatewayRun, daemonRun, hserve]

/-- The client of the connection after the sweep. -/
theorem access_ends_in_time_sample :
    ∃ w h', runOn obligingMachine
        (gatewayRun plainServer {} [authConnection, .timer sampleSweep]) emptyRouter =
          (some w, h') ∧
      ∃ c ∈ w.clients.firstclient, fromClient macReading c samplePacket.header = true ∧
        5 ≤ c.addedTime + 21600 ∧ 5 ≤ c.counters.lastUpdated + 600 := by
  have hcheck : checkEnd obligingMachine {}
      [.ndsctlAuth (sampleMoment 1) "10.0.0.2".toList, .refresh sampleSweep]
      emptyRouter (fun w h' => !onList macReading w.config .trusted samplePacket.header &&
        markMatches ({} : Config).fwMarkAuthenticated w.fw.markmask
          (preroutingMark macReading h'.tables 3 samplePacket)) = true := by
    decide +kernel
  obtain ⟨w, h', hreach, hstate⟩ := reaches_of_checkEnd hcheck
  simp only [Bool.and_eq_true, Bool.not_eq_true'] at hstate
  have hrun := (gatewayRun_sampleSweep obligingMachine plainServer {} emptyRouter).trans hreach.run
  have horder : InOrder 0 [authConnection, .timer sampleSweep] :=
    ⟨le_refl _, ⟨fun _ => show (0 : ℤ) ≤ 4 by decide, fun _ => le_refl _⟩, trivial⟩
  exact ⟨w, h', hrun, access_ends_in_time macReading _ plainServer {} 0 _ _ _ _ hrun hreach.clean
    ⟨⟨by decide, by decide⟩, by decide, by decide⟩ horder _ rfl hstate.1 hstate.2⟩

end Events

end WifiCat.Analysis
