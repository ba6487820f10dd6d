import WifiCat.Analysis.WorldInvariant

/-!
# Where a record comes from

A record on the list of clients has been there before, with the same addresses, the same token and
the same time, or it is a new one; and its state has been there before, or it was authenticated.
`descends_serve` says so for every request, whatever becomes of its commands.
-/

set_option autoImplicit false

namespace WifiCat.Analysis

open CommandProgram Scan

/-! ## Records -/

/-- What does not change of a record. -/
def identity (c : Client) : Client := { c with fwConnectionState := 0, counters := {} }

theorem clientKey_of_identity {c c' : Client} (h : identity c' = identity c) :
    clientKey c' = clientKey c :=
  show clientKey (identity c') = clientKey (identity c) from congrArg clientKey h

/-- A record as it is added for an address. -/
structure NewRecord (m : Moment) (ip : Text) (c : Client) : Prop where
  named : c.ip = ip
  held : arpGet m.arpTable ip = some c.mac
  time : c.addedTime = m.time
  state : c.fwConnectionState = fwMarkPreauthenticated
  counters : c.counters = { lastUpdated := m.time }

/-- A record goes back to one that was there or is new, and was authenticated at most where `A`
says so. -/
def ComesFrom (A : Text × Text → Prop) (N : Client → Prop) (w : World) (c' : Client) : Prop :=
  ∃ c, (c ∈ w.clients.firstclient ∨ N c) ∧ identity c' = identity c ∧
    (c'.fwConnectionState = c.fwConnectionState ∨
      A (clientKey c') ∧ c'.fwConnectionState = w.fw.fwMarkAuthenticated)

/-- All records of a state go back to another state. -/
structure Descends (A : Text × Text → Prop) (N : Client → Prop) (w w' : World) : Prop where
  mark : w'.fw.fwMarkAuthenticated = w.fw.fwMarkAuthenticated
  record : ∀ c' ∈ w'.clients.firstclient, ComesFrom A N w c'

section Lineage

variable {A : Text × Text → Prop} {N : Client → Prop} {config : Config} {w w' w'' : World}

theorem ComesFrom.of_mem {c : Client} (h : c ∈ w.clients.firstclient) : ComesFrom A N w c :=
  ⟨c, Or.inl h, rfl, Or.inl rfl⟩

theorem Descends.refl (A : Text × Text → Prop) (N : Client → Prop) (w : World) :
    Descends A N w w :=
  ⟨rfl, fun _ h => ComesFrom.of_mem h⟩

theorem Descends.trans (h : Descends A N w w') (h' : Descends A N w' w'') : Descends A N w w'' := by
  refine ⟨h'.mark.trans h.mark, fun c'' hc'' => ?_⟩
  obtain ⟨c', hc' | hnew, hid', hstate'⟩ := h'.record c'' hc''
  · obtain ⟨c, hc, hid, hstate⟩ := h.record c' hc'
    refine ⟨c, hc, hid'.trans hid, ?_⟩
    rcases hstate' with hstate' | ⟨hallowed, hmark⟩
    · rw [clientKey_of_identity hid', hstate']
      exact hstate
    · exact Or.inr ⟨hallowed, hmark.trans h.mark⟩
  · refine ⟨c', Or.inr hnew, hid', hstate'.imp_right fun hmark => ⟨hmark.1, ?_⟩⟩
    exact hmark.2.trans h.mark

theorem Descends.mono {A' : Text × Text → Prop} {N' : Client → Prop} (h : Descends A N w w')
    (hA : ∀ k, A k → A' k) (hN : ∀ c, N c → N' c) : Descends A' N' w w' := by
  refine ⟨h.mark, fun c' hc' => ?_⟩
  obtain ⟨c, hc, hid, hstate⟩ := h.record c' hc'
  exact ⟨c, hc.imp_right (hN c), hid, hstate.imp_right fun hmark => ⟨hA _ hmark.1, hmark.2⟩⟩

/-- INTERNAL: a record is added for an address, or the list stays as it is.
SOURCE: client_list.c:92-145, 191-216 -/
theorem record_of_addClient {m : Moment} {ip : Text} {c : Client}
    (hc : c ∈ (addClient m ip w).2.clients.firstclient) :
    c ∈ w.clients.firstclient ∨ NewRecord m ip c := by
  simp only [addClient] at hc
  rcases clientListAddClient_cases w.config.maxclients m.arrival ip w.clients with
    ⟨h, -⟩ | ⟨mac, d, -, -, -, h⟩ | ⟨mac, token, -, harp, -, h⟩
  · rw [h] at hc
    exact Or.inl hc
  · rw [h] at hc
    exact Or.inl hc
  · rw [h] at hc
    unfold clientListAppend at hc
    split at hc
    · exact Or.inl hc
    · rcases List.mem_append.mp hc with hc | hc
      · exact Or.inl hc
      · right
        rw [List.mem_singleton.mp hc]
        exact ⟨rfl, harp, rfl, rfl, rfl⟩

theorem descends_addClient (m : Moment) (ip : Text) (w : World) :
    Descends A (NewRecord m ip) w (addClient m ip w).2 :=
  ⟨rfl, fun c hc => ⟨c, record_of_addClient hc, rfl, Or.inl rfl⟩⟩

theorem mem_of_clientListDelete {p : Option ℕ} {cl : ClientList} {c : Client}
    (h : c ∈ (clientListDelete p cl).firstclient) : c ∈ cl.firstclient := by
  unfold clientListDelete at h
  split at h
  · exact h
  · next client rest heq =>
    obtain ⟨a, -, hunlink⟩ := Option.bind_eq_some_iff.mp heq
    obtain ⟨-, l₁, l₂, hl, hrest⟩ := unlinkNode_eq_some hunlink
    have hmem : c ∈ rest := by
      dsimp only [clientListFreeNode] at h
      split at h <;> exact h
    rw [hrest] at hmem
    rw [hl]
    exact (List.Sublist.append_left (List.sublist_cons_self client l₂) l₁).subset hmem

theorem endsWith_access (config : Config) (fw : Firewall) (action : AuthAction)
    (client : Client) :
    EndsWith (fun r => r.2 = { fw with fwQuiet := false })
      (iptablesFwAccess config fw action client) := by
  unfold iptablesFwAccess
  cases action <;>
    exact Prog.always_bind (Prog.always_trivial _) fun _ _ =>
      Prog.always_bind (Prog.always_trivial _) fun _ _ => rfl

/-- INTERNAL: when one record is removed the others stay.
SOURCE: auth.c:51-88, firewall.c:165-192 -/
theorem descends_removeClient (client : Client) (w : World) :
    EndsWith (Descends A N w) (removeClient client w) := by
  unfold removeClient
  refine Prog.always_bind (P := fun fw => fw.fwMarkAuthenticated = w.fw.fwMarkAuthenticated) ?_
    fun fw hfw => ⟨hfw, fun c hc => ComesFrom.of_mem (mem_of_clientListDelete hc)⟩
  split
  · rw [map_eq_pure_bind]
    refine Prog.always_bind (endsWith_access _ _ _ client) fun access haccess => ?_
    rw [Prog.pure_eq, Prog.always_done, haccess]
  · rfl

/-- INTERNAL: `auth_client_action` authenticates the client that it finds, and no other.
SOURCE: auth.c:91-134 -/
theorem descends_authClientAction (hinv : PlainCounters config w) (ip mac : Text)
    (action : AuthAction) :
    EndsWith (Descends (fun k => action = .makeAuthenticated ∧ k = (ip, mac)) N w)
      (authClientAction ip mac action w) := by
  unfold authClientAction
  split
  · exact Descends.refl _ N w
  · next client hfind =>
    cases action with
    | makeDeauthenticated => exact descends_removeClient client w
    | makeAuthenticated =>
      dsimp only
      split
      · refine Prog.always_bind (endsWith_access _ _ _ _) fun access haccess => ?_
        obtain ⟨hmem, hip, hmac⟩ := clientListFind_eq_some hfind
        refine ⟨by rw [haccess], fun c hc => ?_⟩
        obtain ⟨d, hd, rfl⟩ := List.mem_map.mp hc
        by_cases haddr : d.addr = client.addr
        · have hsame : d = client := List.inj_on_of_nodup_map hinv.clients.addr_nodup hd hmem haddr
          refine ⟨d, Or.inl hd, ?_, Or.inr ⟨⟨rfl, ?_⟩, ?_⟩⟩
          · rw [if_pos haddr]
            rfl
          · rw [if_pos haddr, hsame, ← hip, ← hmac]
            rfl
          · rw [if_pos haddr]
        · rw [if_neg haddr]
          exact ComesFrom.of_mem hd
      · exact Descends.refl _ N w

/-- INTERNAL: counting changes only counters. -/
theorem descends_counters (w : World) (a : ℕ) (counters : Client → Counters) :
    Descends A N w
      { w with clients := w.clients.modify a fun c => { c with counters := counters c } } := by
  refine ⟨rfl, fun c hc => ?_⟩
  obtain ⟨d, hd, rfl⟩ := List.mem_map.mp hc
  refine ⟨d, Or.inl hd, ?_, Or.inl ?_⟩
  · split <;> rfl
  · split <;> rfl

/-- INTERNAL: the loop that removes clients only removes records.
SOURCE: firewall.c:160-198 -/
theorem descends_rounds (now : ℕ → ℤ) (rounds : List (Client × ℕ)) (hw : Descends A N w w') :
    EndsWith (Descends A N w)
      (rounds.foldlM (fun w n => refreshClient (now n.2) n.1 w) w') := by
  refine Prog.always_foldlM hw fun w'' hw'' n _ => ?_
  have hremove : ∀ client, EndsWith (Descends A N w) (removeClient client w'') := fun client =>
    Prog.always_mono (descends_removeClient client w'') (fun _ h => h) fun _ h => hw''.trans h
  unfold refreshClient
  split
  · exact hw''
  · split
    · exact hremove _
    · split
      · exact hremove _
      · exact hw''

theorem descends_countersUpdate (input : RefreshInput) (w : World) :
    Descends A N w { w with clients := (iptablesFwCountersUpdate input w.clients).2 } := by
  refine countersUpdate_keeps (I := fun cl => Descends A N w { w with clients := cl }) ?_ input
    (Descends.refl A N w)
  rintro cl a counters - hcl
  exact hcl.trans (descends_counters { w with clients := cl } a counters)

/-- INTERNAL: so does the refresh as a whole.
SOURCE: firewall.c:143-199 -/
theorem descends_refresh (input : RefreshInput) (w : World) :
    EndsWith (Descends A N w) (fwRefreshClientList input w) := by
  unfold fwRefreshClientList
  dsimp only
  split
  · exact descends_countersUpdate input w
  · exact descends_rounds input.now _ (descends_countersUpdate input w)

/-! ## Requests -/

/-- The addresses that a request authenticates. -/
def requestGrants : Request → Text × Text → Prop
  | .authAction ip mac action, k => action = .makeAuthenticated ∧ k = (ip, mac)
  | .ndsctlAuth m arg, k => k.1 = arg ∧ arpGet m.arpTable arg = some k.2
  | _, _ => False

/-- The records that a request adds. -/
def requestAdds : Request → Client → Prop
  | .addClient m ip, c => NewRecord m ip c
  | .ndsctlAuth m arg, c => NewRecord m arg c
  | _, _ => False

/-- INTERNAL: the client that is added has the address it is added for.
SOURCE: client_list.c:191-216 -/
theorem addClient_key {m : Moment} {ip : Text} {client : Client}
    (h : (addClient m ip w).1 = some client) :
    client.ip = ip ∧ arpGet m.arpTable ip = some client.mac := by
  simp only [addClient] at h
  rcases clientListAddClient_cases w.config.maxclients m.arrival ip w.clients with
    ⟨hadd, -⟩ | ⟨mac, c, -, harp, hfind, hadd⟩ | ⟨mac, token, -, harp, -, hadd⟩
  · rw [hadd] at h
    cases h
  · rw [hadd] at h
    cases h
    obtain ⟨-, hip, hmac⟩ := clientListFind_eq_some hfind
    exact ⟨hip, harp.trans (congrArg some hmac.symm)⟩
  · rw [hadd] at h
    unfold clientListAppend at h
    split at h
    · cases h
    · cases h
      exact ⟨rfl, harp⟩

/-- INTERNAL: **the records after a request** go back to those before it, and to those that it adds
and authenticates.
SOURCE: auth.c:91-134, ndsctl_thread.c:275-458, firewall.c:143-199 -/
theorem descends_serve (hinv : PlainCounters config w) (request : Request) :
    EndsWith (Descends (requestGrants request) (requestAdds request) w) (serve w request) := by
  cases request with
  | addClient m ip => exact descends_addClient m ip w
  | authAction ip mac action => exact descends_authClientAction hinv ip mac action
  | refresh input => exact descends_refresh input w
  | ndsctlMac request arg =>
    refine Prog.always_bind (Prog.always_trivial _) fun r _ => ?_
    exact ⟨rfl, fun c hc => ComesFrom.of_mem hc⟩
  | ndsctlAuth m arg =>
    have hadded : Descends (requestGrants (.ndsctlAuth m arg)) (requestAdds (.ndsctlAuth m arg)) w
        (addClient m arg w).2 := descends_addClient m arg w
    have hinv' := (kept_plainCounters config).add w m arg hinv
    simp only [serve, ndsctlAuth, map_eq_pure_bind]
    refine Prog.always_bind (P := fun r =>
      Descends (requestGrants (.ndsctlAuth m arg)) (requestAdds (.ndsctlAuth m arg)) w r.2) ?_ ?_
    rotate_left
    · intro r hr
      exact hr
    cases hclient : (addClient m arg w).1 with
    | none => exact hadded
    | some client =>
      obtain ⟨hip, hmac⟩ := addClient_key hclient
      refine Prog.always_bind (descends_authClientAction (N := fun _ => False) hinv' _ _ _)
        fun w' hw' => ?_
      refine hadded.trans (hw'.mono (fun k hk => ?_) fun c hc => hc.elim)
      rw [hk.2]
      exact ⟨hip, hmac⟩
  | ndsctlDeauth arg =>
    simp only [serve, ndsctlDeauth, map_eq_pure_bind]
    refine Prog.always_bind (P := fun r =>
      Descends (requestGrants (.ndsctlDeauth arg)) (requestAdds (.ndsctlDeauth arg)) w r.2) ?_ ?_
    rotate_left
    · intro r hr
      exact hr
    split
    · exact Descends.refl _ _ w
    · next client _ =>
      refine Prog.always_bind (descends_authClientAction (N := fun _ => False) hinv _ _ _)
        fun w' hw' => ?_
      exact hw'.mono (fun k hk => absurd hk.1 (by decide)) fun c hc => hc.elim

end Lineage

end WifiCat.Analysis
