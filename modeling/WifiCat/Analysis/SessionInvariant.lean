import WifiCat.Analysis.AccessRules
import WifiCat.Analysis.MacChains

/-!
# The invariant of the daemon's runs

`SessionInv` is what holds between two requests when no command has failed: the client
list is well formed, the authenticated clients have their rules, the MAC lists have
theirs, and the globals and the rest of the configuration are those of the start.  Every
request keeps it (`serve_inv`), so it holds at the end of every run of the daemon.  The chains no
request names stay as start-up left them.
-/

set_option autoImplicit false

namespace WifiCat.Analysis

open CommandProgram Netfilter Scan

variable {out : Outside} {config : Config} {fw : Firewall} {w : World} {h : Host}

/-- What holds between two requests. -/
structure SessionInv (config : Config) (fw : Firewall) (w : World) (ts : Tables) : Prop where
  fw_eq : w.fw = fw
  config_eq : w.config = { config with maclist := w.config.maclist }
  quiet : fw.fwQuiet = false
  marks : fwMarkPreauthenticated ≠ fw.fwMarkAuthenticated
  clients : ClientListInv (max config.maxclients 0) w.clients
  rules : RulesAgree fw w.clients ts
  macs : MacChains fw w.config ts

theorem SessionInv.maxclients_eq {ts : Tables} (hinv : SessionInv config fw w ts) :
    w.config.maxclients = config.maxclients := by
  rw [hinv.config_eq]

/-! ## The chains requests name -/

/-- The chains of the MAC rules. -/
def macPlaces : Set Place := {(.mangle, CHAIN_BLOCKED), (.mangle, CHAIN_TRUSTED)}

/-- The chains a request may name. -/
def sessionPlaces : Set Place := accessPlaces ∪ macPlaces

theorem touches_handle (fw : Firewall) (request : MacRequest) (arg : Text) (config : Config) :
    Touches macPlaces (request.handle fw arg config) := by
  refine (runs_handle ?_).mono (fun _ h => h) fun _ _ => trivial
  rintro x ⟨⟩
  cases request <;> simp [requestCommand, macPlaces, iptablesBlockMac, iptablesUnblockMac,
    iptablesAllowMac, iptablesUnallowMac, iptablesTrustMac, iptablesUntrustMac, Op.chain]

theorem touches_removeClient (client : Client) (w : World) :
    Touches accessPlaces (removeClient client w) := by
  unfold removeClient
  refine Runs.bind (P := fun _ => True) ?_ fun _ _ => trivial
  split
  · rw [map_eq_pure_bind]
    exact (touches_access w.config w.fw .makeDeauthenticated client).bind fun _ _ => trivial
  · trivial

theorem touches_authClientAction (ip mac : Text) (action : AuthAction) (w : World) :
    Touches accessPlaces (authClientAction ip mac action w) := by
  unfold authClientAction
  split
  · trivial
  · next client _ =>
    cases action with
    | makeAuthenticated =>
      dsimp only
      split
      · exact (touches_access w.config w.fw .makeAuthenticated _).bind fun _ _ => trivial
      · trivial
    | makeDeauthenticated => exact touches_removeClient client w

theorem touches_refreshClient (now : ℤ) (node : Client) (w : World) :
    Touches accessPlaces (refreshClient now node w) := by
  unfold refreshClient
  split
  · trivial
  · split
    · exact touches_removeClient _ w
    · split
      · exact touches_removeClient _ w
      · trivial

theorem touches_serve (w : World) (request : Request) : Touches sessionPlaces (serve w request) := by
  have hleft : ∀ {α : Type} {p : Program α}, Touches accessPlaces p → Touches sessionPlaces p :=
    fun hp => hp.mono (fun _ hK x hx => Or.inl (hK x hx)) fun _ _ => trivial
  cases request with
  | addClient m ip => trivial
  | authAction ip mac action => exact hleft (touches_authClientAction ip mac action w)
  | refresh input =>
    simp only [serve, fwRefreshClientList]
    split
    · trivial
    · exact hleft (Prog.always_foldlM trivial fun w' _ n _ => touches_refreshClient _ _ w')
  | ndsctlMac request arg =>
    refine Runs.bind (P := fun _ => True) ?_ fun _ _ => trivial
    exact (touches_handle w.fw request arg w.config).mono
      (fun _ hK x hx => Or.inr (hK x hx)) fun _ _ => trivial
  | ndsctlAuth m arg =>
    simp only [serve, map_eq_pure_bind, ndsctlAuth]
    refine Runs.bind (P := fun _ => True) ?_ fun _ _ => trivial
    split
    · trivial
    · exact (hleft (touches_authClientAction _ _ _ _)).bind fun _ _ => trivial
  | ndsctlDeauth arg =>
    simp only [serve, map_eq_pure_bind, ndsctlDeauth]
    refine Runs.bind (P := fun _ => True) ?_ fun _ _ => trivial
    split
    · trivial
    · exact (hleft (touches_authClientAction _ _ _ _)).bind fun _ _ => trivial

theorem touches_session (requests : List Request) (w : World) :
    Touches sessionPlaces (session requests w) :=
  Prog.always_foldlM trivial fun w' _ request _ => touches_serve w' request

/-! ## Changes of the client list -/

/-- INTERNAL: a new client is not authenticated. -/
theorem addClient_inv (hinv : SessionInv config fw w h.tables) (m : Moment) (ip : Text) :
    SessionInv config fw (addClient m ip w).2 h.tables := by
  have hcount : 0 ≤ w.clients.clientCount := by
    rw [hinv.clients.count]
    exact Int.natCast_nonneg _
  have hadd : (addClient m ip w).2 = { w with clients :=
      (clientListAddClient (max config.maxclients 0) m.arrival ip w.clients).2 } := by
    unfold addClient
    rw [hinv.maxclients_eq, clientListAddClient_max hcount]
  rw [hadd]
  refine ⟨hinv.fw_eq, hinv.config_eq, hinv.quiet, hinv.marks,
    client_list_add_client_inv hinv.clients m.arrival ip, ?_, hinv.macs⟩
  have hsame := authenticatedClients_add hinv.marks (max config.maxclients 0) m.arrival ip
    w.clients
  exact ⟨hsame ▸ hinv.rules.outgoing, hsame ▸ hinv.rules.incoming⟩

/-- INTERNAL: clients change in their counters only. -/
theorem SessionInv.modify (hinv : SessionInv config fw w h.tables) (a : ℕ)
    (counters : Client → Counters) :
    SessionInv config fw
      { w with
        clients := w.clients.modify a fun c => { c with counters := counters c } } h.tables := by
  refine ⟨hinv.fw_eq, hinv.config_eq, hinv.quiet, hinv.marks, ?_, ?_, hinv.macs⟩
  · refine hinv.clients.map fun c => ?_
    split <;> exact ⟨rfl, rfl, rfl⟩
  · refine hinv.rules.map fun c => ?_
    split <;> exact ⟨rfl, rfl, rfl⟩

/-- INTERNAL: reading the counters changes counters only.
SOURCE: fw_iptables.c:880-970 -/
theorem counters_inv (hinv : SessionInv config fw w h.tables) (input : RefreshInput) :
    SessionInv config fw
      { w with clients := (iptablesFwCountersUpdate input w.clients).2 } h.tables :=
  countersUpdate_keeps (I := fun cl => SessionInv config fw { w with clients := cl } h.tables)
    (fun _ a counters _ hcl => hcl.modify a counters) input hinv

/-- INTERNAL: a change of access does not name the MAC chains. -/
theorem macs_of_access {config' : Config} {action : AuthAction} {client : Client}
    (hmacs : MacChains fw config h.tables) :
    MacChains fw config (runOn out (iptablesFwAccess config' fw action client) h).2.tables := by
  refine hmacs.of_rules_eq fun l => ?_
  refine rules_of_touches (touches_access config' fw action client) ?_ h
  cases l <;> simp [accessPlaces, macChain, CHAIN_TRUSTED, CHAIN_BLOCKED, CHAIN_OUTGOING,
    CHAIN_INCOMING]

/-- INTERNAL: **every way a client leaves** takes its rules away.
SOURCE: auth.c:121-126, firewall.c:174-187 -/
theorem removeClient_inv {client : Client} (hinv : SessionInv config fw w h.tables)
    (hlisted : client ∈ w.clients.firstclient)
    (hclean : (runOn out (removeClient client w) h).2.clean) :
    SessionInv config fw (runOn out (removeClient client w) h).1
      (runOn out (removeClient client w) h).2.tables := by
  have hclients := client_list_delete_inv hinv.clients (some client.addr)
  obtain ⟨l₁, l₂, hl, hl'⟩ : ∃ l₁ l₂, w.clients.firstclient = l₁ ++ client :: l₂ ∧
      (clientListDelete (some client.addr) w.clients).firstclient = l₁ ++ l₂ := by
    rcases clientListDelete_cases hinv.clients (some client.addr) with
      ⟨-, hnot⟩ | ⟨c, l₁, l₂, haddr, hl, hdelete⟩
    · exact absurd rfl (hnot client hlisted)
    · have hc : client = c := List.inj_on_of_nodup_map hinv.clients.addr_nodup hlisted
        (by simp [hl]) (Option.some.inj haddr)
      subst hc
      exact ⟨l₁, l₂, hl, by rw [hdelete]⟩
  unfold removeClient at hclean ⊢
  rw [hinv.fw_eq] at hclean ⊢
  by_cases hstate : client.fwConnectionState = fw.fwMarkAuthenticated
  · simp only [hstate, if_true, runOn, Prog.run_bind, Prog.run_map, Prog.pure_eq, Prog.run_done]
      at hclean ⊢
    obtain ⟨hfw, happly⟩ := access_run hinv.quiet hclean
    exact ⟨hfw, hinv.config_eq, hinv.quiet, hinv.marks, hclients,
      hinv.rules.deauthenticate hl hl' hstate happly, macs_of_access hinv.macs⟩
  · simp only [hstate, if_false, runOn, Prog.run_bind, Prog.pure_eq, Prog.run_done]
    exact ⟨rfl, hinv.config_eq, hinv.quiet, hinv.marks, hclients,
      hinv.rules.remove hl hl' hstate, hinv.macs⟩

/-- INTERNAL: authentication and deauthentication.
SOURCE: auth.c:91-134 -/
theorem authClientAction_inv {ip mac : Text} {action : AuthAction}
    (hinv : SessionInv config fw w h.tables)
    (hclean : (runOn out (authClientAction ip mac action w) h).2.clean) :
    SessionInv config fw (runOn out (authClientAction ip mac action w) h).1
      (runOn out (authClientAction ip mac action w) h).2.tables := by
  unfold authClientAction at hclean ⊢
  cases hfind : clientListFind ip mac w.clients with
  | none => exact hinv
  | some client =>
    have hlisted := (clientListFind_eq_some hfind).1
    rw [hfind] at hclean
    cases action with
    | makeDeauthenticated => exact removeClient_inv hinv hlisted hclean
    | makeAuthenticated =>
      dsimp only at hclean ⊢
      rw [hinv.fw_eq] at hclean ⊢
      by_cases hstate : client.fwConnectionState = fw.fwMarkAuthenticated
      · simp only [hstate, ne_eq, not_true_eq_false, if_false, runOn, Prog.pure_eq, Prog.run_done]
        exact hinv
      · simp only [hstate, ne_eq, not_false_eq_true, if_true, runOn, Prog.run_bind, Prog.pure_eq,
          Prog.run_done] at hclean ⊢
        obtain ⟨hfw, happly⟩ := access_run hinv.quiet hclean
        refine ⟨hfw, hinv.config_eq, hinv.quiet, hinv.marks, ?_, ?_, macs_of_access hinv.macs⟩
        · refine hinv.clients.map fun c => ?_
          split <;> exact ⟨rfl, rfl, rfl⟩
        · exact hinv.rules.authenticate (f := fun c =>
            { c with fwConnectionState := fw.fwMarkAuthenticated }) hlisted hinv.clients.addr_nodup
            hstate rfl happly

/-- INTERNAL: one round of the timer's loop.
SOURCE: firewall.c:161-193 -/
theorem refreshClient_inv {now : ℤ} {node : Client} (hinv : SessionInv config fw w h.tables)
    (hclean : (runOn out (refreshClient now node w) h).2.clean) :
    SessionInv config fw (runOn out (refreshClient now node w) h).1
      (runOn out (refreshClient now node w) h).2.tables := by
  unfold refreshClient at hclean ⊢
  cases hfind : clientListFind node.ip node.mac w.clients with
  | none => exact hinv
  | some cp1 =>
    have hlisted := (clientListFind_eq_some hfind).1
    rw [hfind] at hclean
    dsimp only at hclean ⊢
    split at hclean
    · next hidle =>
      rw [if_pos hidle]
      exact removeClient_inv hinv hlisted hclean
    · next hidle =>
      rw [if_neg hidle]
      split at hclean
      · next hforced =>
        rw [if_pos hforced]
        exact removeClient_inv hinv hlisted hclean
      · next hforced =>
        rw [if_neg hforced]
        exact hinv

/-- INTERNAL: a loop whose body keeps the invariant. -/
theorem foldlM_inv {ι : Type} {f : World → ι → Program World}
    (hf : ∀ w h i, SessionInv config fw w h.tables → (runOn out (f w i) h).2.clean →
      SessionInv config fw (runOn out (f w i) h).1 (runOn out (f w i) h).2.tables)
    (l : List ι) (hinv : SessionInv config fw w h.tables)
    (hclean : (runOn out (l.foldlM f w) h).2.clean) :
    SessionInv config fw (runOn out (l.foldlM f w) h).1 (runOn out (l.foldlM f w) h).2.tables := by
  simp only [runOn, Prog.run_foldlM] at hclean ⊢
  exact Run.invariant_foldl_of_good
    (I := fun s : World × Host => SessionInv config fw s.1 s.2.tables)
    (G := fun s : World × Host => s.2.clean)
    (fun s i hgood => clean_of_run hgood) (fun s i hs hgood => hf s.1 s.2 i hs hgood) l hinv hclean

/-- INTERNAL: **every request keeps the invariant**. -/
theorem serve_inv {request : Request} (hinv : SessionInv config fw w h.tables)
    (hclean : (runOn out (serve w request) h).2.clean) :
    SessionInv config fw (runOn out (serve w request) h).1
      (runOn out (serve w request) h).2.tables := by
  cases request with
  | addClient m ip => exact addClient_inv hinv m ip
  | authAction ip mac action => exact authClientAction_inv hinv hclean
  | refresh input =>
    have hcounters := counters_inv hinv input
    simp only [serve, fwRefreshClientList] at hclean ⊢
    split at hclean
    · next hfailed =>
      rw [if_pos hfailed]
      exact hcounters
    · next hfailed =>
      rw [if_neg hfailed]
      exact foldlM_inv (fun _ _ _ hw hc => refreshClient_inv hw hc) _ hcounters hclean
  | ndsctlMac request arg =>
    simp only [serve, runOn, Prog.run_bind, Prog.pure_eq, Prog.run_done, hinv.fw_eq]
      at hclean ⊢
    have hplaces := touches_handle fw request arg w.config
    refine ⟨rfl, ?_, hinv.quiet, hinv.marks, hinv.clients, ?_,
      macChains_handle hinv.quiet hinv.macs hclean⟩
    · have hlist : (runOn out (request.handle fw arg w.config) h).1.2 =
          (requestList request arg w.config).2 :=
        (runs_handle (K := fun _ => True) trivial).result out h
      obtain ⟨l, macs, hmacs⟩ := requestList_config request arg w.config
      simp only [runOn] at hlist
      simp only [hlist, hmacs]
      rw [hinv.config_eq]
      rfl
    · exact hinv.rules.of_rules_eq
        (rules_of_touches hplaces (by simp [macPlaces, CHAIN_BLOCKED, CHAIN_TRUSTED,
          CHAIN_OUTGOING]) h)
        (rules_of_touches hplaces (by simp [macPlaces, CHAIN_BLOCKED, CHAIN_TRUSTED,
          CHAIN_INCOMING]) h)
  | ndsctlAuth m arg =>
    have hadded := addClient_inv hinv m arg
    simp only [serve, ndsctlAuth, runOn, Prog.run_map] at hclean ⊢
    cases hclient : (addClient m arg w).1 with
    | none => exact hadded
    | some client =>
      simp only [hclient, Prog.run_bind, Prog.pure_eq, Prog.run_done] at hclean ⊢
      exact authClientAction_inv hadded hclean
  | ndsctlDeauth arg =>
    simp only [serve, ndsctlDeauth, runOn, Prog.run_map] at hclean ⊢
    cases hclient : (clientListFindByIp arg w.clients).or (clientListFindByMac arg w.clients) with
    | none => exact hinv
    | some client =>
      simp only [hclient, Prog.run_bind, Prog.pure_eq, Prog.run_done] at hclean ⊢
      exact authClientAction_inv hinv hclean

theorem session_inv {requests : List Request} (hinv : SessionInv config fw w h.tables)
    (hclean : (runOn out (session requests w) h).2.clean) :
    SessionInv config fw (runOn out (session requests w) h).1
      (runOn out (session requests w) h).2.tables :=
  foldlM_inv (fun _ _ _ hw hc => serve_inv hw hc) requests hinv hclean

/-! ## Runs of the daemon -/

/-- The chains that stay as start-up leaves them. -/
structure PortalChains (fw : Firewall) (config : Config) (ts : Tables) : Prop where
  prerouting : ∃ rs, (ts .mangle).rules "PREROUTING" =
    some ([gatewayJump config CHAIN_OUTGOING, gatewayJump config CHAIN_BLOCKED,
      gatewayJump config CHAIN_TRUSTED] ++ rs)
  nat : (ts .nat).rules CHAIN_OUTGOING = some (natOutgoingChain fw config)
  filter : FilterChains fw config ts

/-- INTERNAL: a session does not name them. -/
theorem PortalChains.of_session {requests : List Request} (hportal : PortalChains fw config h.tables) :
    PortalChains fw config (runOn out (session requests w) h).2.tables := by
  have hframe : ∀ k c, (k, c) ∉ sessionPlaces →
      ((runOn out (session requests w) h).2.tables k).rules c = (h.tables k).rules c :=
    fun k c hkc => rules_of_touches (touches_session requests w) hkc h
  obtain ⟨rs, hrs⟩ := hportal.prerouting
  obtain ⟨hrouter, htoRouter, hinternet, htrusted, hauthenticated⟩ := hportal.filter
  refine ⟨⟨rs, ?_⟩, ?_, ?_, ?_, ?_, ?_, ?_⟩
  · rwa [hframe _ _ (by simp [sessionPlaces, accessPlaces, macPlaces, CHAIN_OUTGOING,
      CHAIN_INCOMING, CHAIN_BLOCKED, CHAIN_TRUSTED])]
  all_goals
    rw [hframe _ _ (by simp [sessionPlaces, accessPlaces, macPlaces])]
  · exact hportal.nat
  · exact hrouter
  · exact htoRouter
  · exact hinternet
  · exact htrusted
  · exact hauthenticated

/-- The state of the daemon and of the tables between two requests. -/
structure DaemonState (config : Config) (w : World) (ts : Tables) : Prop where
  marks : MarksReady config w.fw
  session : SessionInv config w.fw w ts
  portal : PortalChains w.fw config ts

/-- A run of the daemon in which no `iptables` command failed ends in `w`, on a machine in
state `h'`. -/
structure Reaches (out : Outside) (config : Config) (requests : List Request) (h : Host)
    (w : World) (h' : Host) : Prop where
  run : runOn out (daemonRun config requests) h = (some w, h')
  clean : h'.clean

/-- INTERNAL: what holds after a start that succeeded.
SOURCE: gateway.c:284, 399 -/
theorem start_inv {h : Host} (hclean : (runOn out (iptablesFwInit config {}) h).2.clean)
    (hrc : (runOn out (iptablesFwInit config {}) h).1.1 = 0) :
    SessionInv config (runOn out (iptablesFwInit config {}) h).1.2
      { config := config
        fw := (runOn out (iptablesFwInit config {}) h).1.2
        clients := clientListInit config.maxclients }
      (runOn out (iptablesFwInit config {}) h).2.tables := by
  obtain ⟨hchains, hquiet, hmarks⟩ := fwInit_ready hclean
  have hready := hmarks hrc
  refine ⟨rfl, rfl, hquiet, ?_, ?_, ⟨?_, ?_⟩, hchains.macChains⟩
  · rw [hready.authenticated]
    exact hready.accepted.2.2.2.2.2.symm
  · exact clientListInit_inv config.maxclients
  · obtain ⟨rs, hrs, himq⟩ := hchains.outgoing
    exact ⟨rs, rs, hrs, himq, by simp [authenticatedClients, clientListInit]⟩
  · obtain ⟨rs, hrs, himq⟩ := hchains.incoming
    exact ⟨rs, rs, hrs, himq, by simp [authenticatedClients, clientListInit]⟩

/-- INTERNAL: **every run of the daemon** ends in a state that satisfies the invariant, on
a firewall whose other chains are those of the start.
SOURCE: gateway.c:281-290, 399 -/
theorem Reaches.state {requests : List Request} {h' : Host}
    (hreach : Reaches out config requests h w h') : DaemonState config w h'.tables := by
  obtain ⟨hrun, hclean⟩ := hreach
  simp only [runOn, daemonRun, startDaemon, Prog.run_bind, Prog.pure_eq, Prog.run_done] at hrun
  split at hrun
  · exact absurd (congrArg Prod.fst hrun) (by simp)
  · next hrc =>
    have hstarted : (runOn out (iptablesFwInit config {}) h).1.1 = 0 := not_not.mp hrc
    rw [Prog.run_map, Prod.mk.injEq, Option.some.injEq] at hrun
    obtain ⟨rfl, rfl⟩ := hrun
    have hclean₀ := clean_of_run hclean
    have hinv := start_inv hclean₀ hstarted
    obtain ⟨hchains, -, hmarks⟩ := fwInit_ready hclean₀
    have hend := session_inv hinv hclean
    have hfw := hend.fw_eq
    refine ⟨?_, ?_, ?_⟩
    · rw [hfw]
      exact hmarks hstarted
    · rw [hfw]
      exact hend
    · rw [hfw]
      exact PortalChains.of_session ⟨hchains.prerouting, hchains.nat, hchains.filter⟩

/-! ## The firewall and the client list -/

/-- The rule tests an address. -/
def namesClient (r : IptablesRule) : Bool :=
  r.conds.any fun m =>
    match m with
    | .source _ => true
    | .destination _ => true
    | .macSource _ => true
    | _ => false

/-- The rules for single clients in a chain are the given ones, in some order. -/
def ClientRules (ts : Tables) (chain : String) (rules : List IptablesRule) : Prop :=
  ∃ rs, (ts .mangle).rules chain = some rs ∧ (rs.filter namesClient).Perm rules

/-- INTERNAL: the rules of traffic control test no address. -/
theorem Holds.clientRules {ts : Tables} {chain : String} {rules : List IptablesRule}
    (h : Holds ts chain rules) (hrules : ∀ r ∈ rules, namesClient r = true) :
    ClientRules ts chain rules := by
  obtain ⟨imq, rs, hrs, himq, hperm⟩ := h
  refine ⟨rs, hrs, ?_⟩
  have hnone : imq.filter namesClient = [] := by
    refine List.filter_eq_nil_iff.mpr fun r hr => ?_
    simp [namesClient, (himq r hr).1]
  have hall : rules.filter namesClient = rules := List.filter_eq_self.mpr hrules
  simpa [List.filter_append, hnone, hall] using hperm.filter namesClient

/-- **The firewall and the client list agree over whole runs**: in every state a run
reaches while no command fails, each authenticated client has one rule in `ndsOUT` and
two in `ndsINC`, and there is no other rule for a client.
SOURCE: auth.c:91-134, fw_iptables.c:746-800, firewall.c:143-199 -/
theorem firewall_agrees_with_clients (out : Outside) (config : Config) (requests : List Request)
    (h : Host) (w : World) (h' : Host) (hreach : Reaches out config requests h w h') :
    ClientRules h'.tables CHAIN_OUTGOING
        ((authenticatedClients w.fw w.clients).map (outgoingRule w.fw)) ∧
      ClientRules h'.tables CHAIN_INCOMING
        ((authenticatedClients w.fw w.clients).flatMap (incomingRules w.fw)) := by
  have hrules := hreach.state.session.rules
  refine ⟨hrules.outgoing.clientRules ?_, hrules.incoming.clientRules ?_⟩
  · intro r hr
    obtain ⟨c, -, rfl⟩ := List.mem_map.mp hr
    rfl
  · intro r hr
    obtain ⟨c, -, hc⟩ := List.mem_flatMap.mp hr
    rcases List.mem_cons.mp hc with rfl | hc
    · rfl
    · rw [List.mem_singleton.mp hc]
      rfl

/-- An ARP table with two clients. -/
def sampleArpTable : Text :=
  ("IP address HW type Flags HW address Mask Device\n" ++
    "10.0.0.2 0x1 0x2 00:11:22:33:44:55 * br0\n" ++
    "10.0.0.3 0x1 0x2 66:77:88:99:aa:bb * br0\n").toList

/-- A moment at which both are on the network. -/
def sampleMoment (hint : ℕ) : Moment :=
  { arpTable := sampleArpTable, rand16 := (0, 0), time := 0, mallocHint := hint }

/-- Two clients are authenticated, and the first one leaves. -/
def sampleRequests : List Request :=
  [.ndsctlAuth (sampleMoment 1) "10.0.0.2".toList, .ndsctlAuth (sampleMoment 2) "10.0.0.3".toList,
    .ndsctlDeauth "10.0.0.2".toList]

/-- A run whose end can be computed: no command failed, and the daemon's state passes a
check. -/
def checkRun (out : Outside) (config : Config) (requests : List Request) (h : Host)
    (check : World → Bool) : Bool :=
  match runOn out (daemonRun config requests) h with
  | (some w, h') => decide h'.clean && check w
  | (none, _) => false

theorem reaches_of_checkRun {requests : List Request} {check : World → Bool}
    (hcheck : checkRun out config requests h check = true) :
    ∃ w h', Reaches out config requests h w h' ∧ check w = true := by
  unfold checkRun at hcheck
  split at hcheck
  · next w h' hrun =>
    rw [Bool.and_eq_true, decide_eq_true_eq] at hcheck
    exact ⟨w, h', ⟨hrun, hcheck.1⟩, hcheck.2⟩
  · cases hcheck

/-- The second client keeps its rules. -/
theorem firewall_agrees_with_clients_sample :
    ∃ w h', Reaches obligingMachine {} sampleRequests emptyRouter w h' ∧
      (authenticatedClients w.fw w.clients).map Client.ip = ["10.0.0.3".toList] ∧
      ClientRules h'.tables CHAIN_OUTGOING
        ((authenticatedClients w.fw w.clients).map (outgoingRule w.fw)) := by
  have hcheck : checkRun obligingMachine {} sampleRequests emptyRouter (fun w =>
      (authenticatedClients w.fw w.clients).map Client.ip == ["10.0.0.3".toList]) = true := by
    decide +kernel
  obtain ⟨w, h', hreach, hclients⟩ := reaches_of_checkRun hcheck
  exact ⟨w, h', hreach, eq_of_beq hclients, (firewall_agrees_with_clients _ _ _ _ _ _ hreach).1⟩

end WifiCat.Analysis
