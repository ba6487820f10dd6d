import WifiCat.Analysis.SessionInvariant

/-!
# Where the addresses in commands come from

A command of the daemon holds addresses of the configuration file, of the MAC lists, of
control commands and of clients.  `Sources` says of a list of requests that the addresses
it brings in satisfy a predicate; then every command of the run satisfies what follows
from it, and so do the addresses the daemon keeps (`runs_daemonRun`).

The validators stop reading after the address, so what they let pass is spliced into a
command with whatever follows it.  `addresses_well_formed` is the condition under which
every address in a command is one.
-/

set_option autoImplicit false

namespace WifiCat.Analysis

open CommandProgram Netfilter Scan

/-! ## Addresses the daemon keeps -/

/-- The addresses the daemon keeps: `M` for those of the MAC lists, `C` for the IP and MAC
address of a client. -/
structure Keeps (M : Text → Prop) (C : Text → Text → Prop) (mechanism : MacMechanism)
    (w : World) : Prop where
  macs : ∀ l, ∀ mac ∈ w.config.maclist l, M mac
  clients : ∀ c ∈ w.clients.firstclient, C c.ip c.mac
  mechanism_eq : w.config.macmechanism = mechanism

/-- The addresses that requests bring in, and the commands they go into. -/
structure Sources (K : Command → Prop) (M : Text → Prop) (C : Text → Text → Prop)
    (mechanism : MacMechanism) (requests : List Request) : Prop where
  tc : ∀ cmd, K (.tc cmd)
  access : ∀ fw client action, C client.ip client.mac →
    ∀ cmd ∈ accessCommands (accessOp action) fw client, K (.iptables cmd)
  mac : ∀ request arg, Request.ndsctlMac request arg ∈ requests → ∀ config : Config,
    config.macmechanism = mechanism → (requestList request arg config).1 = 0 →
    M (macCopy arg) ∧ ∀ fw, K (.iptables (requestCommand fw request arg))
  arrival : ∀ m ip, Request.addClient m ip ∈ requests ∨ Request.ndsctlAuth m ip ∈ requests →
    checkIpFormat ip = true → ∀ mac, arpGet m.arpTable ip = some mac → C ip mac

section Session

variable {K : Command → Prop} {M : Text → Prop} {C : Text → Text → Prop}
  {mechanism : MacMechanism} {requests : List Request} {w : World}

theorem Keeps.withClients {cl : ClientList} (hw : Keeps M C mechanism w)
    (hcl : ∀ c ∈ cl.firstclient, ∃ d ∈ w.clients.firstclient, c.ip = d.ip ∧ c.mac = d.mac)
    (fw : Firewall) (n : ℤ) :
    Keeps M C mechanism { w with fw := fw, clients := cl, authenticatedSinceStart := n } := by
  refine ⟨hw.macs, fun c hc => ?_, hw.mechanism_eq⟩
  obtain ⟨d, hd, hip, hmac⟩ := hcl c hc
  rw [hip, hmac]
  exact hw.clients d hd

theorem runs_access (hsources : Sources K M C mechanism requests) (config : Config)
    (fw : Firewall) (action : AuthAction) {client : Client} (hclient : C client.ip client.mac) :
    Runs K (fun _ => True) (iptablesFwAccess config fw action client) := by
  have hcmds : Runs K (fun _ => True) (iptablesDoCommands false
      (accessCommands (accessOp action) { fw with fwQuiet := false } client)) :=
    runs_iptablesDoCommands (hsources.access _ client action hclient)
  have htc : ∀ cmds, Runs K (fun _ => True)
      (if config.trafficControl then tcDoCommands cmds else pure 0) := by
    intro cmds
    split
    · exact runs_tcDoCommands hsources.tc
    · trivial
  cases action with
  | makeAuthenticated => exact hcmds.bind fun _ _ => (htc _).bind fun _ _ => trivial
  | makeDeauthenticated => exact hcmds.bind fun _ _ => (htc _).bind fun _ _ => trivial

theorem runs_removeClient (hsources : Sources K M C mechanism requests)
    (hw : Keeps M C mechanism w) {client : Client} (hclient : C client.ip client.mac) :
    Runs K (Keeps M C mechanism) (removeClient client w) := by
  unfold removeClient
  refine Runs.bind (P := fun _ => True) ?_ fun fw _ => ?_
  · split
    · rw [map_eq_pure_bind]
      exact (runs_access hsources w.config w.fw _ hclient).bind fun _ _ => trivial
    · trivial
  · refine hw.withClients ?_ fw _
    intro c hc
    refine ⟨c, ?_, rfl, rfl⟩
    simp only [clientListDelete, Option.bind_some] at hc
    split at hc
    · exact hc
    · next client' rest hunlink =>
      obtain ⟨-, l₁, l₂, hl, rfl⟩ := unlinkNode_eq_some hunlink
      have hmem : c ∈ l₁ ++ l₂ := by
        unfold clientListFreeNode at hc
        split at hc <;> exact hc
      rw [hl]
      rcases List.mem_append.mp hmem with hmem | hmem <;> simp [hmem]

theorem runs_authClientAction (hsources : Sources K M C mechanism requests)
    (hw : Keeps M C mechanism w) (ip mac : Text) (action : AuthAction) :
    Runs K (Keeps M C mechanism) (authClientAction ip mac action w) := by
  unfold authClientAction
  split
  · exact hw
  · next client hfind =>
    have hclient := hw.clients client (clientListFind_eq_some hfind).1
    cases action with
    | makeDeauthenticated => exact runs_removeClient hsources hw hclient
    | makeAuthenticated =>
      dsimp only
      split
      · refine (runs_access hsources w.config w.fw .makeAuthenticated ?_).bind fun r _ => ?_
        · exact hclient
        · refine hw.withClients ?_ _ _
          intro c hc
          obtain ⟨d, hd, rfl⟩ := List.mem_map.mp hc
          refine ⟨d, hd, ?_⟩
          split <;> exact ⟨rfl, rfl⟩
      · exact hw

theorem keeps_addClient (hsources : Sources K M C mechanism requests)
    (hw : Keeps M C mechanism w) {m : Moment} {ip : Text}
    (hmem : Request.addClient m ip ∈ requests ∨ Request.ndsctlAuth m ip ∈ requests) :
    Keeps M C mechanism (addClient m ip w).2 := by
  have hnew := hsources.arrival m ip hmem
  refine ⟨hw.macs, ?_, hw.mechanism_eq⟩
  simp only [addClient]
  rcases clientListAddClient_cases w.config.maxclients m.arrival ip w.clients with
    ⟨h, -⟩ | ⟨mac, c, -, -, -, h⟩ | ⟨mac, token, hip, harp, -, h⟩
  · rw [h]
    exact hw.clients
  · rw [h]
    exact hw.clients
  · rw [h]
    rcases clientListAppend_cases w.config.maxclients m.arrival ip mac token w.clients with
      ⟨-, happend⟩ | ⟨-, c, hcip, hcmac, -, -, -, happend⟩
    · rw [happend]
      exact hw.clients
    · rw [happend]
      intro d hd
      rcases List.mem_append.mp hd with hd | hd
      · exact hw.clients d hd
      · rw [List.mem_singleton.mp hd, hcip, hcmac]
        exact hnew hip mac harp

theorem runs_refresh (hsources : Sources K M C mechanism requests) (hw : Keeps M C mechanism w)
    (input : RefreshInput) : Runs K (Keeps M C mechanism) (fwRefreshClientList input w) := by
  have hcounters : Keeps M C mechanism
      { w with clients := (iptablesFwCountersUpdate input w.clients).2 } := by
    refine countersUpdate_keeps (I := fun cl => Keeps M C mechanism { w with clients := cl })
      ?_ input hw
    intro cl a counters _ hcl
    refine hcl.withClients ?_ _ _
    intro c hc
    obtain ⟨d, hd, rfl⟩ := List.mem_map.mp hc
    refine ⟨d, hd, ?_⟩
    split <;> exact ⟨rfl, rfl⟩
  unfold fwRefreshClientList
  dsimp only
  split
  · exact hcounters
  · refine Prog.always_foldlM hcounters fun w' hw' n _ => ?_
    unfold refreshClient
    split
    · exact hw'
    · next cp1 hfind =>
      have hclient := hw'.clients cp1 (clientListFind_eq_some hfind).1
      split
      · exact runs_removeClient hsources hw' hclient
      · split
        · exact runs_removeClient hsources hw' hclient
        · exact hw'

/-- INTERNAL: what becomes of the lists under a control command. -/
theorem keeps_requestList (hsources : Sources K M C mechanism requests)
    (hw : Keeps M C mechanism w) {request : MacRequest} {arg : Text}
    (hmem : Request.ndsctlMac request arg ∈ requests) :
    Keeps M C mechanism { w with config := (requestList request arg w.config).2 } := by
  have hcopy := hsources.mac request arg hmem w.config hw.mechanism_eq
  rcases requestList_cases request arg w.config with ⟨-, h⟩ | ⟨-, -, macs, -, hmacs, h⟩
  · rw [h]
    exact hw
  · rw [h] at hcopy ⊢
    refine ⟨fun l mac hmac => ?_, hw.clients, hw.mechanism_eq⟩
    by_cases hl : l = requestListName request
    · subst hl
      rcases hmacs mac (by simpa [Config.setMaclist] using hmac) with rfl | hold
      · exact (hcopy rfl).1
      · exact hw.macs _ mac hold
    · exact hw.macs l mac (by simpa [Config.setMaclist, Function.update_of_ne hl] using hmac)

/-- INTERNAL: one request. -/
theorem runs_serve (hsources : Sources K M C mechanism requests) (hw : Keeps M C mechanism w)
    {request : Request} (hmem : request ∈ requests) :
    Runs K (Keeps M C mechanism) (serve w request) := by
  cases request with
  | addClient m ip => exact keeps_addClient hsources hw (Or.inl hmem)
  | authAction ip mac action => exact runs_authClientAction hsources hw ip mac action
  | refresh input => exact runs_refresh hsources hw input
  | ndsctlMac request arg =>
    simp only [serve]
    have hkeeps := keeps_requestList hsources hw hmem
    by_cases hzero : (requestList request arg w.config).1 = 0
    · have hcmd := (hsources.mac request arg hmem w.config hw.mechanism_eq hzero).2 w.fw
      refine (runs_handle hcmd).bind fun r hr => ?_
      rw [Prog.pure_eq, hr]
      exact hkeeps
    · -- a list function that refuses leaves nothing to run
      rw [handle_eq, ndsctlMac]
      simp only [hzero, if_false]
      exact hkeeps
  | ndsctlAuth m arg =>
    have hkeeps := keeps_addClient hsources hw (Or.inr hmem)
    simp only [serve, map_eq_pure_bind, ndsctlAuth]
    refine Runs.bind (P := fun r => Keeps M C mechanism r.2) ?_ ?_
    rotate_left
    · intro r hr
      exact hr
    split
    · exact hkeeps
    · exact (runs_authClientAction hsources hkeeps _ _ _).bind fun w' hw' => hw'
  | ndsctlDeauth arg =>
    simp only [serve, map_eq_pure_bind, ndsctlDeauth]
    refine Runs.bind (P := fun r => Keeps M C mechanism r.2) ?_ ?_
    rotate_left
    · intro r hr
      exact hr
    split
    · exact hw
    · exact (runs_authClientAction hsources hw _ _ _).bind fun w' hw' => hw'

/-- INTERNAL: **a run of the daemon**: what its requests bring in decides about the
addresses it keeps and about its commands. -/
theorem runs_daemonRun (hsources : Sources K M C mechanism requests) {config : Config}
    (hinit : Runs K (fun _ => True) (iptablesFwInit config {}))
    (hmacs : ∀ l, ∀ mac ∈ config.maclist l, M mac) (hmechanism : config.macmechanism = mechanism) :
    Runs K (fun r => ∀ w, r = some w → Keeps M C mechanism w) (daemonRun config requests) := by
  unfold daemonRun startDaemon
  refine Runs.bind (P := fun r => Keeps M C mechanism r.2) ?_ fun start hstart => ?_
  · exact hinit.bind fun r _ => ⟨hmacs, by simp [clientListInit], hmechanism⟩
  · split
    · rintro w ⟨⟩
    · rw [map_eq_pure_bind]
      refine Runs.bind (Prog.always_foldlM hstart fun w hw request hmem =>
        runs_serve hsources hw hmem) fun w hw => ?_
      rintro w' ⟨⟩
      exact hw

end Session

end WifiCat.Analysis
