import WifiCat.Analysis.SessionInvariant

/-!
# Invariants of the daemon's state

A property of the daemon's state that every change of the client list and of the MAC lists
keeps (`Kept`) holds in every state the daemon reaches, whatever becomes of the commands
it runs.  `PlainCounters` is such a property: the list is well formed, and the histories
of the counters stay zero.
-/

set_option autoImplicit false

namespace WifiCat.Analysis

open CommandProgram Netfilter Scan

/-- Every change of the daemon's state keeps the property. -/
structure Kept (I : World → Prop) : Prop where
  add : ∀ w m ip, I w → I (addClient m ip w).2
  delete : ∀ w fw p, I w → I { w with fw := fw, clients := clientListDelete p w.clients }
  state : ∀ w fw a state n, I w → I
    { w with
      fw := fw
      clients := w.clients.modify a fun c => { c with fwConnectionState := state }
      authenticatedSinceStart := n }
  counters : ∀ (w : World) a (counters : Client → Counters),
    (∀ c, (counters c).incomingHistory = c.counters.incomingHistory ∧
      (counters c).outgoingHistory = c.counters.outgoingHistory) → I w →
    I { w with clients := w.clients.modify a fun c => { c with counters := counters c } }
  maclist : ∀ w request arg, I w → I { w with config := (requestList request arg w.config).2 }

/-- Whatever becomes of its commands, the program ends with the property. -/
abbrev EndsWith {α : Type} (P : α → Prop) (p : Program α) : Prop := Prog.Always (fun _ => True) P p

/-- INTERNAL: so does a run of it. -/
theorem EndsWith.runOn {α : Type} {P : α → Prop} {p : Program α} (hp : EndsWith P p) (out : Outside)
    (h : Host) : P (runOn out p h).1 := by
  have hinv := Prog.run_invariant (h := Host.answer out) (I := fun _ => True)
    (fun _ _ _ _ => trivial) hp (s := h) trivial
  exact hinv.1

section Kept

variable {I : World → Prop} {w : World}

theorem Kept.removeClient (hI : Kept I) (hw : I w) (client : Client) :
    EndsWith I (removeClient client w) := by
  unfold WifiCat.removeClient
  exact Prog.always_bind (Prog.always_trivial _) fun fw _ => hI.delete w fw (some client.addr) hw

theorem Kept.authClientAction (hI : Kept I) (hw : I w) (ip mac : Text) (action : AuthAction) :
    EndsWith I (authClientAction ip mac action w) := by
  unfold WifiCat.authClientAction
  split
  · exact hw
  · next client _ =>
    cases action with
    | makeDeauthenticated => exact hI.removeClient hw client
    | makeAuthenticated =>
      dsimp only
      split
      · refine Prog.always_bind (Prog.always_trivial _) fun access _ => ?_
        exact hI.state w access.2 client.addr w.fw.fwMarkAuthenticated _ hw
      · exact hw

theorem Kept.refresh (hI : Kept I) (hw : I w) (input : RefreshInput) :
    EndsWith I (fwRefreshClientList input w) := by
  have hcounters : I { w with clients := (iptablesFwCountersUpdate input w.clients).2 } :=
    countersUpdate_keeps (I := fun cl => I { w with clients := cl })
      (fun cl a counters hhistory hcl => hI.counters { w with clients := cl } a counters hhistory hcl)
      input hw
  unfold fwRefreshClientList
  dsimp only
  split
  · exact hcounters
  · refine Prog.always_foldlM hcounters fun w' hw' n _ => ?_
    unfold refreshClient
    split
    · exact hw'
    · split
      · exact hI.removeClient hw' _
      · split
        · exact hI.removeClient hw' _
        · exact hw'

/-- INTERNAL: one request. -/
theorem Kept.serve (hI : Kept I) (hw : I w) (request : Request) :
    EndsWith I (serve w request) := by
  cases request with
  | addClient m ip => exact hI.add w m ip hw
  | authAction ip mac action => exact hI.authClientAction hw ip mac action
  | refresh input => exact hI.refresh hw input
  | ndsctlMac request arg =>
    have hhandle : EndsWith (fun r => r.2 = (requestList request arg w.config).2)
        (request.handle w.fw arg w.config) :=
      Prog.always_mono (runs_handle (K := fun _ => True) trivial) (fun _ _ => trivial) fun _ h => h
    refine Prog.always_bind hhandle fun r hr => ?_
    rw [Prog.pure_eq, hr]
    exact hI.maclist w request arg hw
  | ndsctlAuth m arg =>
    have hadded := hI.add w m arg hw
    simp only [WifiCat.serve, map_eq_pure_bind, ndsctlAuth]
    refine Prog.always_bind (P := fun r => I r.2) ?_ ?_
    rotate_left
    · intro r hr
      exact hr
    split
    · exact hadded
    · exact Prog.always_bind (hI.authClientAction hadded _ _ _) fun w' hw' => hw'
  | ndsctlDeauth arg =>
    simp only [WifiCat.serve, map_eq_pure_bind, ndsctlDeauth]
    refine Prog.always_bind (P := fun r => I r.2) ?_ ?_
    rotate_left
    · intro r hr
      exact hr
    split
    · exact hw
    · exact Prog.always_bind (hI.authClientAction hw _ _ _) fun w' hw' => hw'

/-- INTERNAL: **every state the daemon reaches**, even if commands fail.
SOURCE: gateway.c:281-290, 399 -/
theorem Kept.of_run (hI : Kept I) {config : Config}
    (hstart : ∀ fw, I { config := config, fw := fw, clients := clientListInit config.maxclients })
    {out : Outside} {requests : List Request} {h h' : Host}
    (hrun : runOn out (daemonRun config requests) h = (some w, h')) : I w := by
  have hends : EndsWith (fun r => ∀ w, r = some w → I w) (daemonRun config requests) := by
    unfold daemonRun startDaemon
    refine Prog.always_bind (P := fun r => I r.2) ?_ fun start hw => ?_
    · exact Prog.always_bind (Prog.always_trivial _) fun init _ => hstart init.2
    · split
      · rintro w ⟨⟩
      · rw [map_eq_pure_bind]
        refine Prog.always_bind (Prog.always_foldlM hw fun w hw request _ =>
          hI.serve hw request) fun w hw => ?_
        rintro w' ⟨⟩
        exact hw
  have hend := hends.runOn out h
  rw [hrun] at hend
  exact hend w rfl

end Kept

/-! ## The histories of the counters -/

/-- The list is well formed, and the histories of the counters are zero. -/
structure PlainCounters (config : Config) (w : World) : Prop where
  maxclients_eq : w.config.maxclients = config.maxclients
  clients : ClientListInv (max config.maxclients 0) w.clients
  history : ∀ c ∈ w.clients.firstclient,
    c.counters.incomingHistory = 0 ∧ c.counters.outgoingHistory = 0

/-- INTERNAL: a client that was not on the list starts with counters of its own.
SOURCE: client_list.c:139-142 -/
theorem counters_of_addClient {m : Moment} {ip : Text} {w : World} {c : Client}
    (hc : c ∈ (addClient m ip w).2.clients.firstclient) :
    c ∈ w.clients.firstclient ∨ c.counters = { lastUpdated := m.time } := by
  simp only [addClient] at hc
  rcases clientListAddClient_cases w.config.maxclients m.arrival ip w.clients with
    ⟨h, -⟩ | ⟨mac, d, -, -, -, h⟩ | ⟨mac, token, -, -, -, h⟩
  · rw [h] at hc
    exact Or.inl hc
  · rw [h] at hc
    exact Or.inl hc
  · rw [h] at hc
    unfold clientListAppend at hc
    split at hc
    · exact Or.inl hc
    · rcases List.mem_append.mp hc with hc | hc
      · exact Or.inl hc
      · rw [List.mem_singleton.mp hc]
        exact Or.inr rfl

/-- INTERNAL: no change of the daemon's state sets a history. -/
theorem kept_plainCounters (config : Config) : Kept (PlainCounters config) where
  add := by
    intro w m ip hw
    have hcount : 0 ≤ w.clients.clientCount := by
      rw [hw.clients.count]
      exact Int.natCast_nonneg _
    refine ⟨hw.maxclients_eq, ?_, fun c hc => ?_⟩
    · unfold addClient
      rw [hw.maxclients_eq, clientListAddClient_max hcount]
      exact client_list_add_client_inv hw.clients m.arrival ip
    · rcases counters_of_addClient hc with hold | hnew
      · exact hw.history c hold
      · rw [hnew]
        exact ⟨rfl, rfl⟩
  delete := by
    intro w fw p hw
    refine ⟨hw.maxclients_eq, client_list_delete_inv hw.clients p, fun c hc => ?_⟩
    rcases clientListDelete_cases hw.clients p with ⟨h, -⟩ | ⟨d, l₁, l₂, -, hl, h⟩
    · dsimp only at hc
      rw [h] at hc
      exact hw.history c hc
    · dsimp only at hc
      rw [h] at hc
      refine hw.history c ?_
      rw [hl]
      exact (List.Sublist.append_left (List.sublist_cons_self d l₂) l₁).subset hc
  state := by
    intro w fw a state n hw
    refine ⟨hw.maxclients_eq, ?_, fun c hc => ?_⟩
    · refine hw.clients.map fun c => ?_
      split <;> exact ⟨rfl, rfl, rfl⟩
    · obtain ⟨d, hd, rfl⟩ := List.mem_map.mp hc
      have hhistory := hw.history d hd
      split <;> exact hhistory
  counters := by
    intro w a counters hcounters hw
    refine ⟨hw.maxclients_eq, ?_, fun c hc => ?_⟩
    · refine hw.clients.map fun c => ?_
      split <;> exact ⟨rfl, rfl, rfl⟩
    · obtain ⟨d, hd, rfl⟩ := List.mem_map.mp hc
      have hhistory := hw.history d hd
      split
      · rw [← (hcounters d).1, ← (hcounters d).2] at hhistory
        exact hhistory
      · exact hhistory
  maclist := by
    intro w request arg hw
    obtain ⟨l, macs, h⟩ := requestList_config request arg w.config
    refine ⟨?_, hw.clients, hw.history⟩
    dsimp only
    rw [h]
    exact hw.maxclients_eq

/-- INTERNAL: **in every state the daemon reaches** the list is well formed and the
histories are zero.
SOURCE: client_list.c:139-142 -/
theorem plainCounters_of_run {config : Config} {out : Outside} {requests : List Request}
    {h h' : Host} {w : World} (hrun : runOn out (daemonRun config requests) h = (some w, h')) :
    PlainCounters config w := by
  refine (kept_plainCounters config).of_run (fun fw => ⟨rfl, ?_, ?_⟩) hrun
  · exact clientListInit_inv config.maxclients
  · simp [clientListInit]

end WifiCat.Analysis
