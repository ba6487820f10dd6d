import WifiCat.Analysis.AccessOutcome

/-!
# The timeout sweep

`fw_refresh_client_list` walks the linked list, finds each node again by its IP and MAC and
may delete it.  As no two nodes share that pair, what is found is the node itself, so the
walk looks at every client once: the clients that timed out leave the list, each closed in
the firewall if it was open (`refreshClient_foldlM`), and the list that is left is the
old one filtered (`clientListDelete_foldl`).
-/

set_option autoImplicit false

namespace WifiCat.Analysis

open CommandProgram

variable {maxclients now : ℤ} {w : World} {cl : ClientList}

/-! ## What a sweep is to do -/

/-- The client was heard of lately and did not come too long ago. -/
def staysConnected (now : ℤ) (config : Config) (client : Client) : Bool :=
  now < client.counters.lastUpdated + config.checkinterval * config.clienttimeout &&
    now < client.addedTime + config.checkinterval * config.clientforceout

/-- The value fits an `int`. -/
def FitsInt (n : ℤ) : Prop := -2 ^ 31 ≤ n ∧ n < 2 ^ 31

/-- The clients of a list that satisfy `p`, in their order and unchanged; the others leave
their slots and the counter. -/
def keepOnly (p : Client → Bool) (cl : ClientList) : ClientList :=
  let gone := cl.firstclient.filter fun c => !p c
  { cl with
    firstclient := cl.firstclient.filter p
    clientArr := cl.clientArr.map (Option.filter fun a => a ∉ gone.map Client.addr)
    clientCount := cl.clientCount - gone.length }

/-- The commands `AUTH_MAKE_DEAUTHENTICATED` for each of the clients in turn. -/
def deauthenticateEach (config : Config) (fw : Firewall) (clients : List Client) :
    Program Firewall :=
  clients.foldlM
    (fun fw c => Prod.snd <$> iptablesFwAccess config fw .makeDeauthenticated c) fw

/-! ## One client -/

/-- INTERNAL: `iptables_fw_access` changes nothing of the firewall's globals but
`fw_quiet`.
SOURCE: fw_iptables.c:753 -/
theorem access_firewall (config : Config) (fw : Firewall) (action : AuthAction) (client : Client) :
    ∃ p : Program (BitVec 32), Prod.snd <$> iptablesFwAccess config fw action client =
      (fun _ => { fw with fwQuiet := false }) <$> p := by
  cases action with
  | makeAuthenticated =>
    refine ⟨Prod.fst <$> iptablesFwAccess config fw .makeAuthenticated client, ?_⟩
    simp only [iptablesFwAccess, map_bind, map_pure]
  | makeDeauthenticated =>
    refine ⟨Prod.fst <$> iptablesFwAccess config fw .makeDeauthenticated client, ?_⟩
    simp only [iptablesFwAccess, map_bind, map_pure]

/-- INTERNAL: a node of the list is found again by its IP and MAC, so a round of the loop
removes it or leaves it, as its own times say.
SOURCE: firewall.c:161-193 -/
theorem refreshClient_of_mem (hinv : ClientListInv maxclients w.clients) {node : Client}
    (hmem : node ∈ w.clients.firstclient) [Decidable (timedOut now w node)] :
    refreshClient now node w = if timedOut now w node then removeClient node w else pure w := by
  unfold refreshClient
  rw [clientListFind_of_mem hinv.key_nodup hmem]
  dsimp only
  by_cases hidle : node.counters.lastUpdated +
      int32 (w.config.checkinterval * w.config.clienttimeout) ≤ now
  · rw [if_pos hidle, if_pos (show timedOut now w node from Or.inl hidle)]
  · rw [if_neg hidle]
    by_cases hlong : node.addedTime +
        int32 (w.config.checkinterval * w.config.clientforceout) ≤ now
    · rw [if_pos hlong, if_pos (show timedOut now w node from Or.inr hlong)]
    · have hstays : ¬timedOut now w node := fun hout => hout.elim hidle hlong
      rw [if_neg hlong, if_neg hstays]

/-- INTERNAL: deleting a node leaves the others. -/
theorem mem_clientListDelete (hinv : ClientListInv maxclients cl) {c d : Client}
    (hc : c ∈ cl.firstclient) (hd : d ∈ cl.firstclient) (hne : d ≠ c) :
    d ∈ (clientListDelete (some c.addr) cl).firstclient := by
  rcases clientListDelete_cases hinv (some c.addr) with ⟨h, -⟩ | ⟨e, l₁, l₂, he, hl, h⟩
  · rwa [h]
  · have hec : e ∈ cl.firstclient := by simp [hl]
    have heq : c = e :=
      List.inj_on_of_nodup_map hinv.addr_nodup hc hec (Option.some.inj he)
    subst heq
    rw [hl] at hd
    rw [h]
    simp only [List.mem_append, List.mem_cons] at hd ⊢
    tauto

/-! ## The walk -/

/-- INTERNAL: **the walk**: of the nodes that are left to look at, those that timed out are
deleted, each closed in the firewall if it was open.
SOURCE: firewall.c:158-195 -/
theorem refreshClient_foldlM {clock : ℕ → ℤ} (hclock : ∀ n, clock n = now) {nodes : List Client}
    {out : Client → Bool} (hout : ∀ c, out c = true ↔ timedOut now w c) (k : ℕ)
    (hinv : ClientListInv maxclients w.clients) (hnodes : ∀ c ∈ nodes, c ∈ w.clients.firstclient)
    (hnd : nodes.Nodup) :
    (nodes.zipIdx k).foldlM (fun w n => refreshClient (clock n.2) n.1 w) w =
      (fun fw =>
        { w with
          fw := fw
          clients := (nodes.filter out).foldl
            (fun cl c => clientListDelete (some c.addr) cl) w.clients }) <$>
        deauthenticateEach w.config w.fw
          ((nodes.filter out).filter (·.fwConnectionState = w.fw.fwMarkAuthenticated)) := by
  induction nodes generalizing w k with
  | nil => rfl
  | cons node nodes ih =>
    obtain ⟨hnode, hnd⟩ := List.nodup_cons.mp hnd
    have hmem : node ∈ w.clients.firstclient := hnodes node (by simp)
    have hrest : ∀ c ∈ nodes, c ∈ w.clients.firstclient := fun c hc =>
      hnodes c (List.mem_cons_of_mem _ hc)
    classical
    rw [List.zipIdx_cons, List.foldlM_cons, hclock, refreshClient_of_mem hinv hmem]
    by_cases htime : timedOut now w node
    · have hyes : out node = true := (hout node).mpr htime
      have hleft : ∀ c ∈ nodes, c ∈ (clientListDelete (some node.addr) w.clients).firstclient :=
        fun c hc => mem_clientListDelete hinv hmem (hrest c hc) (by rintro rfl; exact hnode hc)
      rw [if_pos htime, removeClient, List.filter_cons_of_pos hyes]
      by_cases hauth : node.fwConnectionState = w.fw.fwMarkAuthenticated
      · -- the firewall is closed for the client before the node is freed
        obtain ⟨p, hp⟩ := access_firewall w.config w.fw .makeDeauthenticated node
        rw [if_pos hauth, List.filter_cons_of_pos (by simpa using hauth), deauthenticateEach,
          List.foldlM_cons, hp]
        simp only [bind_map_left, bind_assoc, pure_bind, map_bind]
        refine bind_congr fun _ => ?_
        exact ih (w := { w with
          fw := { w.fw with fwQuiet := false }
          clients := clientListDelete (some node.addr) w.clients })
          hout (k + 1) (client_list_delete_inv hinv _) hleft hnd
      · rw [if_neg hauth, List.filter_cons_of_neg (by simpa using hauth), pure_bind, pure_bind]
        exact ih (w := { w with clients := clientListDelete (some node.addr) w.clients })
          hout (k + 1) (client_list_delete_inv hinv _) hleft hnd
    · have hno : ¬out node = true := fun h => htime ((hout node).mp h)
      rw [if_neg htime, pure_bind, List.filter_cons_of_neg hno]
      exact ih hout (k + 1) hinv hrest hnd

/-! ## What is left -/

/-- INTERNAL: deleting one node is keeping the others.
SOURCE: client_list.c:336-368 -/
theorem clientListDelete_eq_keepOnly (hinv : ClientListInv maxclients cl) {c : Client}
    (hc : c ∈ cl.firstclient) :
    clientListDelete (some c.addr) cl = keepOnly (fun d => d != c) cl := by
  rcases clientListDelete_cases hinv (some c.addr) with ⟨-, h⟩ | ⟨e, l₁, l₂, he, hl, h⟩
  · exact absurd rfl (h c hc)
  · have hec : e ∈ cl.firstclient := by simp [hl]
    have heq : c = e :=
      List.inj_on_of_nodup_map hinv.addr_nodup hc hec (Option.some.inj he)
    subst heq
    have hnot : c ∉ l₁ ++ l₂ := by
      have hnd := List.Nodup.of_map _ hinv.addr_nodup
      rw [hl, List.nodup_middle, List.nodup_cons] at hnd
      exact hnd.1
    have hleft : cl.firstclient.filter (fun d => d != c) = l₁ ++ l₂ := by
      have hall : (l₁ ++ l₂).filter (fun d => d != c) = l₁ ++ l₂ :=
        List.filter_eq_self.mpr fun d hd => by simpa using ne_of_mem_of_not_mem hd hnot
      rw [hl, List.filter_append, List.filter_cons_of_neg (by simp), ← List.filter_append, hall]
    have hgone : cl.firstclient.filter (fun d => !(d != c)) = [c] := by
      have hnone : (l₁ ++ l₂).filter (fun d => !(d != c)) = [] :=
        List.filter_eq_nil_iff.mpr fun d hd => by simpa using ne_of_mem_of_not_mem hd hnot
      rw [List.filter_append, List.append_eq_nil_iff] at hnone
      rw [hl, List.filter_append, List.filter_cons_of_pos (by simp), hnone.1, hnone.2]
      rfl
    have harr : cl.clientArr.set c.idx none =
        cl.clientArr.map (Option.filter fun a => a ∉ [c].map Client.addr) := by
      -- the slot of the client is the only one that holds its address
      refine List.ext_getElem (by simp) fun i hi hi' => ?_
      rw [List.getElem_set, List.getElem_map]
      have hi₂ : i < cl.clientArr.length := by simpa using hi
      have hget : cl.clientArr.getD i none = cl.clientArr[i] := by
        simp [List.getD_eq_getElem?_getD, hi₂]
      cases hslot : cl.clientArr[i] with
      | none => simp
      | some a =>
        obtain ⟨d, hd, hda, hdi⟩ := hinv.listed_of_slot i a (hget.trans hslot)
        by_cases hdc : d = c
        · subst hdc
          simp [hda, hdi, Option.filter]
        · have hidx : c.idx ≠ i := fun hi => hdc (hinv.idx_inj hd hc (hdi.trans hi.symm))
          have haddr : a ≠ c.addr := fun ha =>
            hdc (List.inj_on_of_nodup_map hinv.addr_nodup hd hc (hda.trans ha))
          simp [hidx, haddr, Option.filter]
    rw [h, keepOnly, hleft, hgone, harr]
    rfl

/-- INTERNAL: keeping some and then some of those. -/
theorem keepOnly_keepOnly (p q : Client → Bool) (cl : ClientList) :
    keepOnly q (keepOnly p cl) = keepOnly (fun c => p c && q c) cl := by
  have hgone : ∀ a, a ∉ (cl.firstclient.filter fun c => !(p c && q c)).map Client.addr ↔
      a ∉ (cl.firstclient.filter fun c => !p c).map Client.addr ∧
        a ∉ ((cl.firstclient.filter p).filter fun c => !q c).map Client.addr := by
    intro a
    simp only [List.mem_map, List.mem_filter, not_exists, not_and, and_imp]
    constructor
    · intro h
      exact ⟨fun c hc hp => h c hc (by simp_all), fun c hc hp hq => h c hc (by simp_all)⟩
    · rintro ⟨hp, hq⟩ c hc hboth
      cases hpc : p c with
      | false => exact hp c hc (by simp [hpc])
      | true => exact hq c hc hpc (by simpa [hpc] using hboth)
  have hlength : (cl.firstclient.filter fun c => !(p c && q c)).length =
      (cl.firstclient.filter fun c => !p c).length +
        ((cl.firstclient.filter p).filter fun c => !q c).length := by
    induction cl.firstclient with
    | nil => rfl
    | cons c l ih =>
      cases hp : p c with
      | false => simp only [List.filter_cons, hp, Bool.false_and, Bool.not_false, if_true,
          Bool.false_eq_true, if_false, List.length_cons, ih]; omega
      | true =>
        cases hq : q c with
        | false => simp only [List.filter_cons, hp, hq, Bool.and_false, Bool.not_false, if_true,
            Bool.not_true, Bool.false_eq_true, if_false, List.length_cons, ih]; omega
        | true => simp only [List.filter_cons, hp, hq, Bool.and_true, Bool.not_true,
            Bool.false_eq_true, if_false, if_true, ih]
  have harr : cl.clientArr.map (Option.filter fun a =>
        a ∉ (cl.firstclient.filter fun c => !(p c && q c)).map Client.addr) =
      (cl.clientArr.map (Option.filter fun a =>
        a ∉ (cl.firstclient.filter fun c => !p c).map Client.addr)).map
        (Option.filter fun a =>
          a ∉ ((cl.firstclient.filter p).filter fun c => !q c).map Client.addr) := by
    rw [List.map_map]
    refine List.map_congr_left fun slot _ => ?_
    rw [Function.comp_apply, Option.filter_filter]
    refine congrArg (fun f => Option.filter f slot) (funext fun a => ?_)
    simp only [hgone a, Bool.decide_and]
  have hleft : cl.firstclient.filter (fun c => p c && q c) =
      (cl.firstclient.filter p).filter q := by
    rw [List.filter_filter]
    exact List.filter_congr fun c _ => Bool.and_comm _ _
  simp only [keepOnly]
  rw [hleft, harr, hlength, Nat.cast_add, sub_sub]
  rfl

/-- INTERNAL: deleting nodes one after the other is keeping those not deleted. -/
theorem clientListDelete_foldl {removed : List Client} (hinv : ClientListInv maxclients cl)
    (hmem : ∀ c ∈ removed, c ∈ cl.firstclient) (hnd : removed.Nodup) :
    removed.foldl (fun cl c => clientListDelete (some c.addr) cl) cl =
      keepOnly (fun d => d ∉ removed) cl := by
  induction removed generalizing cl with
  | nil =>
    have hall : (Option.filter fun _ : ℕ => true) = id := funext fun slot => by cases slot <;> rfl
    simp [keepOnly, hall]
  | cons c removed ih =>
    obtain ⟨hc, hnd⟩ := List.nodup_cons.mp hnd
    have hfirst : c ∈ cl.firstclient := hmem c (by simp)
    have hleft : ∀ d ∈ removed, d ∈ (clientListDelete (some c.addr) cl).firstclient := fun d hd =>
      mem_clientListDelete hinv hfirst (hmem d (List.mem_cons_of_mem _ hd))
        (by rintro rfl; exact hc hd)
    rw [List.foldl_cons, ih (client_list_delete_inv hinv _) hleft hnd,
      clientListDelete_eq_keepOnly hinv hfirst, keepOnly_keepOnly]
    refine congrArg (fun p => keepOnly p cl) (funext fun d => ?_)
    simp only [List.mem_cons, not_or, Bool.decide_and, decide_not, bne, Bool.beq_eq_decide_eq]

/-- INTERNAL: what is kept depends on the listed clients only. -/
theorem keepOnly_congr {p q : Client → Bool} (h : ∀ c ∈ cl.firstclient, p c = q c) :
    keepOnly p cl = keepOnly q cl := by
  have hgone : cl.firstclient.filter (fun c => !p c) = cl.firstclient.filter fun c => !q c :=
    List.filter_congr fun c hc => by rw [h c hc]
  rw [keepOnly, keepOnly, hgone, List.filter_congr h]

/-! ## The sweep -/

/-- INTERNAL: a product that fits an `int` is computed exactly. -/
theorem int32_of_fitsInt {n : ℤ} (h : FitsInt n) : int32 n = n := by
  obtain ⟨hlo, hhi⟩ := h
  exact Int.bmod_eq_of_le (by omega) (by omega)

/-- INTERNAL: reading the counters keeps the invariant of the list.
SOURCE: fw_iptables.c:880-970 -/
theorem countersUpdate_inv (hinv : ClientListInv maxclients cl) (input : RefreshInput) :
    ClientListInv maxclients (iptablesFwCountersUpdate input cl).2 := by
  refine countersUpdate_keeps (I := ClientListInv maxclients) ?_ input hinv
  intro cl a counters _ hcl
  refine hcl.map (g := fun c => if c.addr = a then { c with counters := counters c } else c) ?_
  intro c
  split <;> exact ⟨rfl, rfl, rfl⟩

/-- **The timeout sweep is a filter**: on a list that keeps the representation invariant,
with products that fit an `int` and one reading of the clock, `fw_refresh_client_list`
keeps the clients that are still connected, in their order and as they are, and gives the
firewall commands that close it for each removed client that was authenticated, once each
and in the order of the list, and no other.
SOURCE: firewall.c:146-199 -/
theorem timeout_sweep_exact (input : RefreshInput) (w : World) (maxclients now : ℤ)
    (hinv : ClientListInv maxclients w.clients) (hclock : ∀ n, input.now n = now)
    (hidle : FitsInt (w.config.checkinterval * w.config.clienttimeout))
    (hforce : FitsInt (w.config.checkinterval * w.config.clientforceout))
    (hcounters : (iptablesFwCountersUpdate input w.clients).1 = true) :
    let cl := (iptablesFwCountersUpdate input w.clients).2
    let removed := cl.firstclient.filter fun c => !staysConnected now w.config c
    fwRefreshClientList input w =
      (fun fw =>
        { w with fw := fw, clients := keepOnly (staysConnected now w.config) cl }) <$>
        deauthenticateEach w.config w.fw
          (removed.filter (·.fwConnectionState = w.fw.fwMarkAuthenticated)) := by
  intro cl removed
  have hcl : ClientListInv maxclients cl := countersUpdate_inv hinv input
  have hout : ∀ c, (!staysConnected now w.config c) = true ↔
      timedOut now { w with clients := cl } c := by
    intro c
    rw [timedOut, int32_of_fitsInt hidle, int32_of_fitsInt hforce]
    simp only [staysConnected, Bool.not_eq_true', Bool.and_eq_false_iff, decide_eq_false_iff_not,
      not_lt]
  have hnd : cl.firstclient.Nodup := List.Nodup.of_map _ hcl.addr_nodup
  have hkept : removed.foldl (fun cl c => clientListDelete (some c.addr) cl) cl =
      keepOnly (staysConnected now w.config) cl := by
    rw [clientListDelete_foldl hcl (fun c hc => List.mem_of_mem_filter hc) (hnd.filter _)]
    refine keepOnly_congr fun c hc => ?_
    cases hstays : staysConnected now w.config c <;> simp [List.mem_filter, hc, hstays]
  have hwalk := refreshClient_foldlM (w := { w with clients := cl }) hclock hout 0 hcl
    (fun c hc => hc) hnd
  unfold fwRefreshClientList
  simp only [hcounters, Bool.not_true, Bool.false_eq_true, if_false]
  rw [← hkept]
  exact hwalk

/-- A client that came a little later. -/
def laterClient : Client :=
  { addr := 2
    ip := "10.0.0.8".toList
    mac := "00:11:22:33:44:66".toList
    token := none
    addedTime := 900
    counters := { lastUpdated := 900 }
    idx := 1 }

/-- A daemon with an authenticated client that came at second 0 and one that came at 900. -/
def twoClientWorld : World :=
  { config := {}
    fw := { fwMarkAuthenticated := 0x400 }
    clients :=
      { firstclient := [listedClient 0x400, laterClient]
        clientArr := [some 1, some 2]
        clientCount := 2 } }

/-- A sweep at second 1000, which finds no traffic. -/
def quietRefresh : RefreshInput :=
  { outgoing := some [], incoming := some [], readAt := fun _ => 1000, now := fun _ => 1000 }

/-- At second 1000 the first of the two clients goes.
SOURCE: firewall.c:146-199 -/
theorem timeout_sweep_exact_sample :
    fwRefreshClientList quietRefresh twoClientWorld =
      (fun fw =>
        { twoClientWorld with
          fw := fw
          clients :=
            { firstclient := [laterClient], clientArr := [none, some 2], clientCount := 1 } }) <$>
        deauthenticateEach {} { fwMarkAuthenticated := 0x400 } [listedClient 0x400] := by
  have hinv : ClientListInv 2 twoClientWorld.clients :=
    { count := rfl
      count_le := by decide
      arr_length := rfl
      slot_of_listed := by decide
      listed_of_slot := by
        intro i a h
        match i with
        | 0 => exact ⟨listedClient 0x400, by decide, by cases h; rfl, rfl⟩
        | 1 => exact ⟨laterClient, by decide, by cases h; rfl, rfl⟩
        | i + 2 => cases h
      addr_nodup := by decide
      key_nodup := by decide
      ip_checked := by decide }
  have hsweep := timeout_sweep_exact quietRefresh twoClientWorld 2 1000 hinv (fun _ => rfl)
    (by unfold FitsInt; decide) (by unfold FitsInt; decide) rfl
  have hkept : keepOnly (staysConnected 1000 twoClientWorld.config) twoClientWorld.clients =
      { firstclient := [laterClient], clientArr := [none, some 2], clientCount := 1 } := by
    decide
  rw [← hkept]
  exact hsweep

end WifiCat.Analysis
