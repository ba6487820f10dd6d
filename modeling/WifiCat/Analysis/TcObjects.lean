import WifiCat.Analysis.SessionInvariant
import WifiCat.Analysis.TimeoutSweep
import WifiCat.Model.TcDevices

/-!
# Traffic control and the authenticated clients

`tc_attach_client` gives a client a class and a filter on each of the two devices, whether
or not `tc_init_tc` has set the device up; `tc_detach_client` takes the classes away and
leaves the filters.  So the objects of the devices are those of the authenticated clients as
long as clients are only attached with both devices set up, and no attached client leaves
(`tc_objects_match`).
-/

set_option autoImplicit false

namespace WifiCat.Analysis

open CommandProgram Netfilter Scan

variable {out : Outside} {config : Config} {w : World} {t : TcHost} {mark : BitVec 32}

/-! ## What is claimed -/

/-- The two devices. -/
def tcDevices (config : Config) : List Text :=
  [imqName config.downloadImq, imqName config.uploadImq]

/-- The class of a client, `1:{idx + 10}`. -/
def clientClass (c : Client) : ℤ := c.idx + 10

/-- The filter of a client: the mark of its packets, and its class. -/
def clientFilter (fw : Firewall) (c : Client) : ℕ × ℤ := (clientMark fw c, clientClass c)

/-- The command adds a class. -/
def addsClass : TcCommand → Bool
  | .classAdd .. => true
  | _ => false

/-- The objects of the devices are those of the authenticated clients: no class was added to a
device without its root qdisc and class 1:1, and each device has one class and one filter
for each authenticated client, and no other class or filter of a client. -/
structure ObjectsMatch (config : Config) (w : World) (t : TcHost) : Prop where
  attached : ∀ cmd ∈ t.refused, addsClass cmd = false
  classes : ∀ dev ∈ tcDevices config, (t.devices dev).classes.filter (10 ≤ ·) =
    ((authenticatedClients w.fw w.clients).map clientClass : List ℤ)
  filters : ∀ dev ∈ tcDevices config, (t.devices dev).filters =
    ((authenticatedClients w.fw w.clients).map (clientFilter w.fw) : List (ℕ × ℤ))

/-! ## When it holds -/

/-- `tc_init_tc` sets up two different devices. -/
def LimitsBoth (config : Config) : Prop :=
  config.downloadLimit > 0 ∧ config.uploadLimit > 0 ∧
    imqName config.downloadImq ≠ imqName config.uploadImq

/-- The request makes a client authenticated that was not. -/
def Attaches (w : World) (c : Client) : Request → Prop
  | .authAction ip mac .makeAuthenticated =>
    clientListFind ip mac w.clients = some c ∧ c.fwConnectionState ≠ w.fw.fwMarkAuthenticated
  | .ndsctlAuth m arg =>
    (addClient m arg w).1 = some c ∧ c.fwConnectionState ≠ w.fw.fwMarkAuthenticated
  | _ => False

/-- The request takes a client off the list. -/
def Detaches (w : World) (c : Client) : Request → Prop
  | .authAction ip mac .makeDeauthenticated => clientListFind ip mac w.clients = some c
  | .ndsctlDeauth arg => (clientListFindByIp arg w.clients).or (clientListFindByMac arg w.clients) =
      some c
  | .refresh input =>
    let counters := iptablesFwCountersUpdate input w.clients
    counters.1 = true ∧ ∃ n, (c, n) ∈ counters.2.firstclient.zipIdx ∧
      timedOut (input.now n) { w with clients := counters.2 } c
  | _ => False

/-- A client is only attached when both devices are set up, and no authenticated client is
taken off. -/
def KeepsAttached (config : Config) (w : World) (request : Request) : Prop :=
  (∀ c, Attaches w c request → LimitsBoth config) ∧
    ∀ c, Detaches w c request → c.fwConnectionState ≠ w.fw.fwMarkAuthenticated

/-! ## Runs -/

/-- INTERNAL: a program without `tc` commands leaves the devices alone. -/
theorem devices_of_noTc {α : Type} {P : α → Prop} {p : Program α}
    (hp : Runs (fun cmd => ∀ c, cmd ≠ .tc c) P p) (t : TcHost) :
    P (runTc out p t).1 ∧ (runTc out p t).2.devices = t.devices ∧
      (runTc out p t).2.refused = t.refused := by
  refine Prog.run_invariant (h := TcHost.answer out)
    (I := fun u => u.devices = t.devices ∧ u.refused = t.refused) ?_ hp ⟨rfl, rfl⟩
  intro e u hno hu
  cases e with
  | execute cmd =>
    cases cmd with
    | tc c => exact absurd rfl (hno _ rfl c)
    | iptables c => exact hu
  | logStatus rc cmd => exact hu
  | list table chain => exact hu

theorem noTc_iptables {fwQuiet : Bool} (cmds : List IptablesCommand) :
    Runs (fun cmd => ∀ c, cmd ≠ .tc c) (fun _ => True) (iptablesDoCommands fwQuiet cmds) :=
  runs_iptablesDoCommands fun cmd _ c => by simp

/-- What one `tc` command does to the machine. -/
def doTc (t : TcHost) (cmd : TcCommand) : TcHost :=
  match cmd.apply t.devices with
  | some devices => { t with devices := devices }
  | none => { t with refused := t.refused ++ [cmd] }

/-- INTERNAL: `tc` commands run one after the other, whatever becomes of them.
SOURCE: tc.c:55-78 -/
theorem runTc_tcDoCommands (cmds : List TcCommand) (t : TcHost) :
    (runTc out (tcDoCommands cmds) t).2 = cmds.foldl doTc t := by
  unfold tcDoCommands
  generalize (0 : BitVec 32) = rc
  induction cmds generalizing rc t with
  | nil => rfl
  | cons cmd cmds ih =>
    have hone : (TcHost.answer out (.execute (.tc cmd)) t).2 = doTc t cmd := by
      simp only [TcHost.answer, doTc]
      cases cmd.apply t.devices <;> rfl
    simp only [List.foldlM_cons, List.foldl_cons, runTc, tcDoCommand, execute, Prog.run_bind,
      Prog.run_question, Prog.pure_eq, Prog.run_done] at ih ⊢
    rw [ih, hone]

/-- A device with a client's class and filter. -/
def attachTo (d : TcDevice) (classid : ℤ) (filter : ℕ × ℤ) : TcDevice :=
  { d with classes := classid ::ₘ d.classes, filters := filter ::ₘ d.filters }

/-- The device has been set up. -/
def IsReady (d : TcDevice) : Prop := d.root = true ∧ (1 : ℤ) ∈ d.classes

/-- INTERNAL: attaching a client to one device that is set up.
SOURCE: tc.c:91-94, 101-104 -/
theorem doTc_attach {dev : Text} (hready : IsReady (t.devices dev)) (classid limit : ℤ)
    (handle : ℕ) :
    doTc (doTc t (tcClassAdd dev classid limit)) (.filterAdd dev handle classid) =
      { t with
        devices := Function.update t.devices dev
          (attachTo (t.devices dev) classid (handle, classid)) } := by
  obtain ⟨hroot, hclass⟩ := hready
  simp [doTc, tcClassAdd, TcCommand.apply, hroot, hclass, attachTo]

/-- INTERNAL: **attaching a client** to two devices that are set up.
SOURCE: tc.c:80-107 -/
theorem runTc_attach {down up : Text} (hne : down ≠ up) (hdown : IsReady (t.devices down))
    (hup : IsReady (t.devices up)) (downloadLimit uploadLimit : ℤ) (idx : ℕ) (fwMark : BitVec 32) :
    (runTc out (tcAttachClient down downloadLimit up uploadLimit idx fwMark) t).2 =
      { t with
        devices := fun dev =>
          if dev ∈ [down, up] then
            attachTo (t.devices dev) (idx + 10) (hexNumeral [idx + 10, fwMark.toNat], idx + 10)
          else t.devices dev } := by
  unfold tcAttachClient
  rw [runTc_tcDoCommands]
  simp only [List.foldl_cons, List.foldl_nil]
  rw [doTc_attach hdown, doTc_attach (by simpa [Function.update_of_ne hne.symm] using hup)]
  congr 1
  funext dev
  by_cases hdev : dev = up
  · subst hdev
    simp [Function.update_of_ne hne.symm]
  · by_cases hdev' : dev = down
    · subst hdev'
      simp [Function.update_of_ne hdev]
    · simp [hdev, hdev']

/-- INTERNAL: `iptables_fw_access` with both devices set up.
SOURCE: fw_iptables.c:746-800 -/
theorem runTc_access (htc : config.trafficControl = true) (hlimits : LimitsBoth config)
    (hready : ∀ dev ∈ tcDevices config, IsReady (t.devices dev)) (fw : Firewall)
    (client : Client) :
    let after := runTc out (iptablesFwAccess config fw .makeAuthenticated client) t
    after.1.2 = { fw with fwQuiet := false } ∧ after.2.refused = t.refused ∧
      after.2.devices = fun dev =>
        if dev ∈ tcDevices config then
          attachTo (t.devices dev) (clientClass client) (clientFilter fw client)
        else t.devices dev := by
  intro after
  -- the three `iptables` commands come first
  have hcmds := @devices_of_noTc out _ _ _ (@noTc_iptables false
    (accessCommands .append { fw with fwQuiet := false } client)) t
  have hready' : ∀ dev ∈ tcDevices config, IsReady ((runTc out (iptablesDoCommands false
      (accessCommands .append { fw with fwQuiet := false } client)) t).2.devices dev) := by
    rw [hcmds.2.1]
    exact hready
  have hattach := fun d u => @runTc_attach out _ _ _ hlimits.2.2 (hready' _ (by simp [tcDevices]))
    (hready' _ (by simp [tcDevices])) d u client.idx fw.fwMarkAuthenticated
  simp only [after, iptablesFwAccess, htc, if_true, runTc, Prog.run_bind, Prog.pure_eq,
    Prog.run_done] at hattach hcmds ⊢
  refine ⟨trivial, ?_, ?_⟩
  · rw [hattach]
    exact hcmds.2.2
  · rw [hattach, hcmds.2.1]
    rfl

/-! ## The invariant -/

/-- What holds between two requests. -/
structure TcInv (config : Config) (w : World) (t : TcHost) : Prop where
  config_eq : w.config = { config with maclist := w.config.maclist }
  marks : fwMarkPreauthenticated ≠ w.fw.fwMarkAuthenticated
  clients : ClientListInv (max config.maxclients 0) w.clients
  objects : ObjectsMatch config w t
  ready : LimitsBoth config → ∀ dev ∈ tcDevices config, IsReady (t.devices dev)

/-- INTERNAL: neither the objects nor the filters of the authenticated clients change. -/
theorem ObjectsMatch.of_eq {w' : World} {t' : TcHost} (hobjects : ObjectsMatch config w t)
    (hclients : (authenticatedClients w'.fw w'.clients).map (clientFilter w'.fw) =
      (authenticatedClients w.fw w.clients).map (clientFilter w.fw))
    (hdevices : t'.devices = t.devices) (hrefused : t'.refused = t.refused) :
    ObjectsMatch config w' t' := by
  have hclass : ∀ fw : Firewall, ∀ l : List Client,
      l.map clientClass = (l.map (clientFilter fw)).map Prod.snd := fun fw l => by
    rw [List.map_map]
    rfl
  refine ⟨hrefused ▸ hobjects.attached, fun dev hdev => ?_, fun dev hdev => ?_⟩
  · rw [hdevices, hobjects.classes dev hdev, hclass w.fw, hclass w'.fw, hclients]
  · rw [hdevices, hobjects.filters dev hdev, hclients]

/-- INTERNAL: a step that leaves the devices alone. -/
theorem TcInv.of_eq {w' : World} {t' : TcHost} (hinv : TcInv config w t)
    (hconfig : w'.config = { config with maclist := w'.config.maclist })
    (hmark : w'.fw.fwMarkAuthenticated = w.fw.fwMarkAuthenticated)
    (hlist : ClientListInv (max config.maxclients 0) w'.clients)
    (hclients : (authenticatedClients w'.fw w'.clients).map (clientFilter w'.fw) =
      (authenticatedClients w.fw w.clients).map (clientFilter w.fw))
    (hdevices : t'.devices = t.devices) (hrefused : t'.refused = t.refused) :
    TcInv config w' t' where
  config_eq := hconfig
  marks := by
    rw [hmark]
    exact hinv.marks
  clients := hlist
  objects := hinv.objects.of_eq hclients hdevices hrefused
  ready := fun hlimits dev hdev => by
    rw [hdevices]
    exact hinv.ready hlimits dev hdev

theorem TcInv.maxclients_eq (hinv : TcInv config w t) : w.config.maxclients = config.maxclients := by
  rw [hinv.config_eq]

/-- INTERNAL: a new client is not attached. -/
theorem TcInv.add (hinv : TcInv config w t) (m : Moment) (ip : Text) :
    TcInv config (addClient m ip w).2 t := by
  have hcount : 0 ≤ w.clients.clientCount := by
    rw [hinv.clients.count]
    exact Int.natCast_nonneg _
  refine hinv.of_eq hinv.config_eq rfl ?_ ?_ rfl rfl
  · unfold addClient
    rw [hinv.maxclients_eq, clientListAddClient_max hcount]
    exact client_list_add_client_inv hinv.clients m.arrival ip
  · unfold addClient
    rw [authenticatedClients_add hinv.marks]

/-- INTERNAL: a client that is not authenticated leaves without a command.
SOURCE: auth.c:121-126, firewall.c:174-177, 184-187 -/
theorem removeClient_of_ne {client : Client}
    (hstate : client.fwConnectionState ≠ w.fw.fwMarkAuthenticated) :
    removeClient client w =
      pure { w with clients := clientListDelete (some client.addr) w.clients } := by
  simp [removeClient, hstate]

theorem TcInv.remove (hinv : TcInv config w t) {client : Client}
    (hmem : client ∈ w.clients.firstclient)
    (hstate : client.fwConnectionState ≠ w.fw.fwMarkAuthenticated) :
    TcInv config (runTc out (removeClient client w) t).1 (runTc out (removeClient client w) t).2 := by
  rw [removeClient_of_ne hstate]
  refine hinv.of_eq hinv.config_eq rfl (client_list_delete_inv hinv.clients _) ?_ rfl rfl
  rcases clientListDelete_cases hinv.clients (some client.addr) with
    ⟨h, -⟩ | ⟨c, l₁, l₂, haddr, hl, h⟩
  · simp only [Prog.pure_eq, runTc, Prog.run_done, h]
  · have hc : client = c := List.inj_on_of_nodup_map hinv.clients.addr_nodup hmem (by simp [hl])
      (Option.some.inj haddr)
    subst hc
    simp only [Prog.pure_eq, runTc, Prog.run_done, h]
    rw [authenticatedClients_remove hl rfl hstate]

/-- INTERNAL: **a client is attached** to two devices that are set up.
SOURCE: auth.c:105-119 -/
theorem TcInv.authenticate (htc : config.trafficControl = true) (hinv : TcInv config w t)
    {ip mac : Text}
    (hlimits : ∀ c, clientListFind ip mac w.clients = some c →
      c.fwConnectionState ≠ w.fw.fwMarkAuthenticated → LimitsBoth config) :
    TcInv config (runTc out (authClientAction ip mac .makeAuthenticated w) t).1
      (runTc out (authClientAction ip mac .makeAuthenticated w) t).2 := by
  unfold authClientAction
  cases hfind : clientListFind ip mac w.clients with
  | none => exact hinv
  | some client =>
    have hmem := (clientListFind_eq_some hfind).1
    dsimp only
    by_cases hstate : client.fwConnectionState = w.fw.fwMarkAuthenticated
    · simp only [hstate, ne_eq, not_true_eq_false, if_false]
      exact hinv
    · have hboth := hlimits client hfind hstate
      have htc' : w.config.trafficControl = true := by rw [hinv.config_eq]; exact htc
      have hboth' : LimitsBoth w.config := by rw [hinv.config_eq]; exact hboth
      have hdevices : tcDevices w.config = tcDevices config := by rw [hinv.config_eq]; rfl
      have hready := hinv.ready hboth
      rw [← hdevices] at hready
      obtain ⟨hfw, hrefused, hafter⟩ := runTc_access htc' hboth' hready w.fw
        { client with fwConnectionState := w.fw.fwMarkAuthenticated }
      simp only [ne_eq, hstate, not_false_eq_true, if_true, runTc, Prog.run_bind, Prog.pure_eq,
        Prog.run_done] at hfw hrefused hafter ⊢
      rw [hdevices] at hafter
      have hperm := authenticatedClients_modify (f := fun c =>
        { c with fwConnectionState := w.fw.fwMarkAuthenticated }) hmem hinv.clients.addr_nodup
        hstate rfl
      refine ⟨hinv.config_eq, ?_, ?_, ⟨?_, ?_, ?_⟩, ?_⟩
      · rw [hfw]
        exact hinv.marks
      · refine hinv.clients.map fun c => ?_
        split <;> exact ⟨rfl, rfl, rfl⟩
      · rw [hrefused]
        exact hinv.objects.attached
      · intro dev hdev
        have hclass : ∀ c : Client, (10 : ℤ) ≤ clientClass c := fun c => by simp [clientClass]
        rw [hafter, hfw]
        simp only [if_pos hdev, attachTo]
        rw [Multiset.filter_cons_of_pos _ (hclass _), hinv.objects.classes dev hdev]
        exact (Multiset.coe_eq_coe.mpr (hperm.map clientClass)).symm
      · intro dev hdev
        rw [hafter, hfw]
        simp only [if_pos hdev, attachTo]
        rw [hinv.objects.filters dev hdev]
        exact (Multiset.coe_eq_coe.mpr (hperm.map (clientFilter w.fw))).symm
      · intro _ dev hdev
        rw [hafter]
        simp only [if_pos hdev, attachTo]
        obtain ⟨hroot, hclass⟩ := hready dev (hdevices ▸ hdev)
        exact ⟨hroot, Multiset.mem_cons_of_mem hclass⟩

/-- INTERNAL: the counters are read, which no command or filter depends on.
SOURCE: fw_iptables.c:880-970 -/
theorem TcInv.counters (hinv : TcInv config w t) (input : RefreshInput) :
    TcInv config { w with clients := (iptablesFwCountersUpdate input w.clients).2 } t := by
  refine countersUpdate_keeps (I := fun cl => TcInv config { w with clients := cl } t)
    ?_ input hinv
  intro cl a counters _ hcl
  have hg : ∀ c : Client, (if c.addr = a then { c with counters := counters c } else c).addr =
      c.addr ∧ clientKey (if c.addr = a then { c with counters := counters c } else c) =
      clientKey c ∧ (if c.addr = a then { c with counters := counters c } else c).idx = c.idx := by
    intro c
    split <;> exact ⟨rfl, rfl, rfl⟩
  refine hcl.of_eq hcl.config_eq rfl (hcl.clients.map hg) ?_ rfl rfl
  unfold ClientList.modify
  rw [authenticatedClients_map, List.map_map]
  · refine List.map_congr_left fun c _ => ?_
    rw [Function.comp_apply, clientFilter, clientMark, clientClass, (hg c).2.2]
    rfl
  · intro c
    split <;> rfl

/-- INTERNAL: **the timer's loop**, when no client that it removes is authenticated.  What a
round finds is the node it looks at, as the list only loses nodes.
SOURCE: firewall.c:158-195 -/
theorem TcInv.refresh {cl : ClientList} (hcl : ClientListInv (max config.maxclients 0) cl)
    {clock : ℕ → ℤ} {nodes : List (Client × ℕ)} (hinv : TcInv config w t)
    (hnodes : ∀ n ∈ nodes, n.1 ∈ cl.firstclient)
    (hsub : ∀ c ∈ w.clients.firstclient, c ∈ cl.firstclient)
    (hstays : ∀ n ∈ nodes, timedOut (clock n.2) w n.1 →
      n.1.fwConnectionState ≠ w.fw.fwMarkAuthenticated) :
    TcInv config
      (runTc out (nodes.foldlM (fun w n => refreshClient (clock n.2) n.1 w) w) t).1
      (runTc out (nodes.foldlM (fun w n => refreshClient (clock n.2) n.1 w) w) t).2 := by
  induction nodes generalizing w t with
  | nil => exact hinv
  | cons n nodes ih =>
    rw [List.foldlM_cons, runTc, Prog.run_bind]
    have hrest : ∀ n ∈ nodes, n.1 ∈ cl.firstclient := fun n' hn => hnodes n' (by simp [hn])
    have hone : TcInv config (runTc out (refreshClient (clock n.2) n.1 w) t).1
          (runTc out (refreshClient (clock n.2) n.1 w) t).2 ∧
        (∀ c ∈ (runTc out (refreshClient (clock n.2) n.1 w) t).1.clients.firstclient,
          c ∈ cl.firstclient) ∧
        (runTc out (refreshClient (clock n.2) n.1 w) t).1.config = w.config ∧
        (runTc out (refreshClient (clock n.2) n.1 w) t).1.fw = w.fw := by
      have hstay : n.1 ∈ w.clients.firstclient → timedOut (clock n.2) w n.1 →
          TcInv config (runTc out (removeClient n.1 w) t).1 (runTc out (removeClient n.1 w) t).2 ∧
            (∀ c ∈ (runTc out (removeClient n.1 w) t).1.clients.firstclient,
              c ∈ cl.firstclient) ∧
            (runTc out (removeClient n.1 w) t).1.config = w.config ∧
            (runTc out (removeClient n.1 w) t).1.fw = w.fw := by
        intro hmem htime
        have hstate := hstays n (by simp) htime
        refine ⟨hinv.remove hmem hstate, ?_⟩
        rw [removeClient_of_ne hstate]
        refine ⟨fun c hc => hsub c ?_, rfl, rfl⟩
        rcases clientListDelete_cases hinv.clients (some n.1.addr) with
          ⟨h, -⟩ | ⟨d, l₁, l₂, -, hl, h⟩
        · simpa only [Prog.pure_eq, runTc, Prog.run_done, h] using hc
        · rw [hl]
          simp only [Prog.pure_eq, runTc, Prog.run_done, h, List.mem_append] at hc
          simp only [List.mem_append, List.mem_cons]
          tauto
      unfold refreshClient
      cases hfind : clientListFind n.1.ip n.1.mac w.clients with
      | none => exact ⟨hinv, hsub, rfl, rfl⟩
      | some cp1 =>
        obtain ⟨hmem, hip, hmac⟩ := clientListFind_eq_some hfind
        have hsame : cp1 = n.1 := List.inj_on_of_nodup_map hcl.key_nodup (hsub cp1 hmem)
          (hnodes n (by simp)) (by simp [clientKey, hip, hmac])
        subst hsame
        dsimp only
        split
        · next hidle => exact hstay hmem (Or.inl hidle)
        · split
          · next hlong => exact hstay hmem (Or.inr hlong)
          · exact ⟨hinv, hsub, rfl, rfl⟩
    obtain ⟨hinv', hsub', hconfig, hfw⟩ := hone
    refine ih hinv' hrest hsub' fun n' hn htime => ?_
    rw [hfw]
    refine hstays n' (by simp [hn]) ?_
    unfold timedOut at htime ⊢
    rwa [hconfig] at htime

/-- INTERNAL: **a request** that keeps the attached clients.
SOURCE: auth.c:91-134, firewall.c:146-199, ndsctl_thread.c:275-458 -/
theorem TcInv.serve (htc : config.trafficControl = true) (hinv : TcInv config w t)
    {request : Request} (hok : KeepsAttached config w request) :
    TcInv config (runTc out (serve w request) t).1 (runTc out (serve w request) t).2 := by
  obtain ⟨hattach, hdetach⟩ := hok
  cases request with
  | addClient m ip => exact hinv.add m ip
  | authAction ip mac action =>
    cases action with
    | makeAuthenticated =>
      exact hinv.authenticate htc fun c hfind hstate => hattach c ⟨hfind, hstate⟩
    | makeDeauthenticated =>
      simp only [WifiCat.serve, authClientAction]
      cases hfind : clientListFind ip mac w.clients with
      | none => exact hinv
      | some client => exact hinv.remove (clientListFind_eq_some hfind).1 (hdetach client hfind)
  | refresh input =>
    have hcounters := hinv.counters input
    simp only [WifiCat.serve, fwRefreshClientList]
    split
    · exact hcounters
    · next hread =>
      refine hcounters.refresh hcounters.clients (fun n hn => ?_) (fun c hc => hc) fun n hn htime => ?_
      · exact (List.mem_zipIdx hn).2.2 ▸ List.getElem_mem _
      · refine hdetach n.1 ⟨by simpa using hread, n.2, hn, htime⟩
  | ndsctlMac request arg =>
    have hrun := @devices_of_noTc out _ _ _ (@runs_handle w.fw w.config
      (fun cmd => ∀ c, cmd ≠ .tc c) request arg (by simp)) t
    obtain ⟨l, macs, hmacs⟩ := requestList_config request arg w.config
    simp only [WifiCat.serve, runTc, Prog.run_bind, Prog.pure_eq, Prog.run_done] at hrun ⊢
    refine hinv.of_eq ?_ rfl hinv.clients rfl hrun.2.1 hrun.2.2
    dsimp only
    rw [hrun.1, hmacs, hinv.config_eq]
    rfl
  | ndsctlAuth m arg =>
    have hadded := hinv.add m arg
    simp only [WifiCat.serve, ndsctlAuth, runTc, Prog.run_map]
    cases hclient : (addClient m arg w).1 with
    | none => exact hadded
    | some client =>
      simp only [Prog.run_bind, Prog.pure_eq, Prog.run_done]
      refine hadded.authenticate htc fun c hfind hstate => hattach c ⟨?_, hstate⟩
      have hmem := (clientListAddClient_mem w.config.maxclients m.arrival arg w.clients).2 client
        hclient
      rw [clientListFind_of_mem hadded.clients.key_nodup hmem] at hfind
      rw [hclient, hfind]
  | ndsctlDeauth arg =>
    simp only [WifiCat.serve, ndsctlDeauth, runTc, Prog.run_map]
    cases hclient : (clientListFindByIp arg w.clients).or (clientListFindByMac arg w.clients) with
    | none => exact hinv
    | some client =>
      simp only [Prog.run_bind, Prog.pure_eq, Prog.run_done, authClientAction]
      cases hfind : clientListFind client.ip client.mac w.clients with
      | none => exact hinv
      | some found =>
        have hmem : client ∈ w.clients.firstclient := by
          rcases Option.or_eq_some_iff.mp hclient with hip | ⟨-, hmac⟩
          · exact List.mem_of_find?_eq_some hip
          · exact List.mem_of_find?_eq_some hmac
        rw [clientListFind_of_mem hinv.clients.key_nodup hmem] at hfind
        cases hfind
        exact hinv.remove hmem (hdetach client hclient)

/-! ## The start -/

/-- No client has an object yet, and no class was refused. -/
structure Prepared (t : TcHost) : Prop where
  attached : ∀ cmd ∈ t.refused, addsClass cmd = false
  classes : ∀ dev, (t.devices dev).classes.filter (10 ≤ ·) = 0
  filters : ∀ dev, (t.devices dev).filters = 0

theorem Prepared.of_noTc {α : Type} {P : α → Prop} {p : Program α} (hprepared : Prepared t)
    (hp : Runs (fun cmd => ∀ c, cmd ≠ .tc c) P p) : Prepared (runTc out p t).2 := by
  obtain ⟨-, hdevices, hrefused⟩ := devices_of_noTc hp t
  exact ⟨hrefused ▸ hprepared.attached, hdevices ▸ hprepared.classes, hdevices ▸ hprepared.filters⟩

/-- INTERNAL: **setting up a device**: it is ready, and so is every device that was; only the
qdisc can be refused.
SOURCE: tc.c:126-143, 151-168 -/
theorem runTc_attachQdisc (hprepared : Prepared t) (dev : Text) (limit : ℤ) :
    Prepared (runTc out (tcAttachQdisc dev limit) t).2 ∧
      IsReady ((runTc out (tcAttachQdisc dev limit) t).2.devices dev) ∧
      ∀ d, IsReady (t.devices d) → IsReady ((runTc out (tcAttachQdisc dev limit) t).2.devices d) := by
  have hafter : ∃ refused, (refused = t.refused ∨ refused = t.refused ++ [.qdiscAdd dev 1700]) ∧
      (runTc out (tcAttachQdisc dev limit) t).2 = { t with
        refused := refused
        devices := Function.update t.devices dev
          { t.devices dev with root := true, classes := 2 ::ₘ 1 ::ₘ (t.devices dev).classes } } := by
    unfold tcAttachQdisc
    rw [runTc_tcDoCommands]
    cases hroot : (t.devices dev).root with
    | false => exact ⟨_, Or.inl rfl, by simp [doTc, tcClassAdd, TcCommand.apply, hroot]⟩
    | true => exact ⟨_, Or.inr rfl, by simp [doTc, tcClassAdd, TcCommand.apply, hroot]⟩
  obtain ⟨refused, hrefused, hafter⟩ := hafter
  rw [hafter]
  have hready : ∀ d, d = dev ∨ IsReady (t.devices d) → IsReady (Function.update t.devices dev
      { t.devices dev with root := true, classes := 2 ::ₘ 1 ::ₘ (t.devices dev).classes } d) := by
    intro d hd
    by_cases hdev : d = dev
    · subst hdev
      simp [IsReady]
    · rw [Function.update_of_ne hdev]
      exact hd.resolve_left hdev
  refine ⟨⟨?_, fun d => ?_, fun d => ?_⟩, hready dev (Or.inl rfl), fun d hd => hready d (Or.inr hd)⟩
  · rcases hrefused with rfl | rfl
    · exact hprepared.attached
    · intro cmd hcmd
      rcases List.mem_append.mp hcmd with hcmd | hcmd
      · exact hprepared.attached cmd hcmd
      · rw [List.mem_singleton.mp hcmd]
        rfl
  · by_cases hdev : d = dev
    · subst hdev
      simpa [Multiset.filter_cons_of_neg] using hprepared.classes d
    · simpa only [Function.update_of_ne hdev] using hprepared.classes d
  · by_cases hdev : d = dev
    · subst hdev
      simpa using hprepared.filters d
    · simpa only [Function.update_of_ne hdev] using hprepared.filters d

/-- INTERNAL: one half of `tc_init_tc`, once the device is up.
SOURCE: tc.c:203-206, 218-221 -/
theorem runTc_half (hprepared : Prepared t) (fwQuiet : Bool) (cmd : IptablesCommand) (dev : Text)
    (limit : ℤ) :
    let mid := (runTc out (iptablesDoCommand fwQuiet cmd) t).2
    let after := (runTc out (tcAttachQdisc dev limit) mid).2
    Prepared after ∧ IsReady (after.devices dev) ∧
      ∀ d, IsReady (t.devices d) → IsReady (after.devices d) := by
  intro mid after
  have hcmd : Runs (fun cmd => ∀ c, cmd ≠ .tc c) (fun _ => True) (iptablesDoCommand fwQuiet cmd) :=
    runs_iptablesDoCommand (by simp)
  obtain ⟨hafter, hdev, hothers⟩ := runTc_attachQdisc (hprepared.of_noTc hcmd) dev limit
  refine ⟨hafter, hdev, fun d hd => hothers d ?_⟩
  rw [(devices_of_noTc hcmd t).2.1]
  exact hd

/-- INTERNAL: **`tc_init_tc`** sets up the device of each direction that has a limit.
SOURCE: tc.c:175-228 -/
theorem runTc_init (hprepared : Prepared t) (fwQuiet : Bool) (config : Config) :
    let after := (runTc out (tcInitTc fwQuiet config) t).2
    Prepared after ∧
      (config.downloadLimit > 0 → IsReady (after.devices (imqName config.downloadImq))) ∧
      (config.uploadLimit > 0 → IsReady (after.devices (imqName config.uploadImq))) := by
  have hlink : ∀ (dev : Text) (t : TcHost),
      Prog.run (TcHost.answer out) (execute (.tc (.linkSet dev true))) t = (0, t) := fun _ _ => rfl
  have hdown : Prepared (runTc out (tcInitDownload fwQuiet config) t).2 ∧
      (config.downloadLimit > 0 →
        IsReady ((runTc out (tcInitDownload fwQuiet config) t).2.devices
          (imqName config.downloadImq))) := by
    unfold tcInitDownload
    split
    · obtain ⟨hafter, hready, -⟩ := runTc_half hprepared fwQuiet
        ⟨.mangle, .append CHAIN_INCOMING ⟨[], .ext (.IMQ config.downloadImq)⟩⟩
        (imqName config.downloadImq) config.downloadLimit
      simp only [runTc, Prog.run_bind, hlink, ne_eq, not_true_eq_false, if_false, Prog.pure_eq,
        Prog.run_done, tcAttachDownloadQdisc] at hafter hready ⊢
      exact ⟨hafter, fun _ => hready⟩
    · next hno => exact ⟨hprepared, fun hlimit => absurd hlimit hno⟩
  obtain ⟨hprepared', hready'⟩ := hdown
  simp only [tcInitTc, runTc, Prog.run_bind] at hprepared' hready' ⊢
  unfold tcInitUpload
  split
  · obtain ⟨hafter, hready, hothers⟩ := runTc_half hprepared' fwQuiet
      ⟨.mangle, .append CHAIN_OUTGOING ⟨[], .ext (.IMQ config.uploadImq)⟩⟩
      (imqName config.uploadImq) config.uploadLimit
    simp only [runTc, Prog.run_bind, hlink, ne_eq, not_true_eq_false, if_false, Prog.pure_eq,
      Prog.run_done, tcAttachUploadQdisc] at hafter hready hothers ⊢
    exact ⟨hafter, fun hlimit => hothers _ (hready' hlimit), fun _ => hready⟩
  · next hno => exact ⟨hprepared', hready', fun hlimit => absurd hlimit hno⟩

/-- INTERNAL: the start.
SOURCE: fw_iptables.c:314-605, gateway.c:281-290, 399 -/
theorem tcInv_start (htc : config.trafficControl = true) {h : Host}
    (hstart : runTc out (startDaemon config) { host := h } = ((0, w), t)) : TcInv config w t := by
  -- up to the queueing disciplines, and after them, only `iptables` runs
  have hmarks := @devices_of_noTc out _ _ _ (fwInitMarks_runs
    (K := fun cmd => ∀ c, cmd ≠ .tc c) (fun _ _ _ => by simp) config {}) { host := h }
  have hfirst : Prepared (runTc out (iptablesFwInitMarks config {}) { host := h }).2 := by
    refine ⟨?_, fun dev => ?_, fun dev => ?_⟩
    · rw [hmarks.2.2]
      rintro cmd ⟨⟩
    · rw [hmarks.2.1]
      rfl
    · rw [hmarks.2.1]
  simp only [startDaemon, iptablesFwInit, iptablesFwInitTables, htc, if_true, runTc,
    Prog.run_bind, Prog.pure_eq, Prog.run_done, Prod.mk.injEq] at hstart hmarks hfirst
  obtain ⟨⟨hrc, rfl⟩, rfl⟩ := hstart
  have hready := hmarks.1.2 (BitVec.or_eq_zero_iff.mp hrc).1
  generalize Prog.run (TcHost.answer out) (iptablesFwInitMarks config {}) { host := h } = marks at *
  have hmangle : Prepared (runTc out (iptablesDoCommands marks.1.2.fwQuiet
      (mangleCommands marks.1.2 config)) marks.2).2 := hfirst.of_noTc (noTc_iptables _)
  have hinit := @runTc_init out _ hmangle marks.1.2.fwQuiet config
  simp only [runTc] at hinit
  generalize Prog.run (TcHost.answer out) (tcInitTc marks.1.2.fwQuiet config) _ = init at *
  have hnat := @devices_of_noTc out _ _ _ (@noTc_iptables marks.1.2.fwQuiet
    (natCommands marks.1.2 config)) init.2
  have hfilter := @devices_of_noTc out _ _ _ (@noTc_iptables marks.1.2.fwQuiet
    (filterCommands marks.1.2 config)) (Prog.run (TcHost.answer out)
      (iptablesDoCommands marks.1.2.fwQuiet (natCommands marks.1.2 config)) init.2).2
  simp only [runTc] at hnat hfilter
  obtain ⟨hprepared, hdown, hup⟩ := hinit
  have hempty : authenticatedClients marks.1.2 (clientListInit config.maxclients) = [] := rfl
  refine ⟨rfl, ?_, clientListInit_inv config.maxclients, ⟨?_, ?_, ?_⟩, ?_⟩
  · dsimp only
    rw [hready.authenticated]
    exact hready.accepted.2.2.2.2.2.symm
  · rw [hfilter.2.2, hnat.2.2]
    exact hprepared.attached
  · intro dev _
    rw [hfilter.2.1, hnat.2.1, hprepared.classes dev, hempty]
    rfl
  · intro dev _
    rw [hfilter.2.1, hnat.2.1, hprepared.filters dev, hempty]
    rfl
  · intro hlimits dev hdev
    rw [hfilter.2.1, hnat.2.1]
    simp only [tcDevices, List.mem_cons, List.not_mem_nil, or_false] at hdev
    rcases hdev with rfl | rfl
    · exact hdown hlimits.1
    · exact hup hlimits.2.1

/-! ## Every state that is reached -/

/-- **The objects are those of the authenticated clients** in every state that is reached by
requests which attach clients only with both devices set up, and take no attached client
off.
SOURCE: tc.c:80-118, 175-228, fw_iptables.c:765-791 -/
theorem tc_objects_match (out : Outside) (config : Config) (htc : config.trafficControl = true)
    (w : World) (t : TcHost) (hreach : TcReach out config (KeepsAttached config) w t) :
    ObjectsMatch config w t := by
  suffices hinv : TcInv config w t from hinv.objects
  induction hreach with
  | start h w t hstart => exact tcInv_start htc hstart
  | serve w t request _ hok ih => exact ih.serve htc hok

/-- A portal that limits both directions. -/
def limitedPortal : Config :=
  { trafficControl := true, downloadLimit := 1000, uploadLimit := 500 }

/-- The portal after its start. -/
def startedPortal (config : Config) : (BitVec 32 × World) × TcHost :=
  runTc obligingMachine (startDaemon config) { host := emptyRouter }

theorem startedPortal_reached {config : Config} {ok : World → Request → Prop}
    (hstart : (startedPortal config).1.1 = 0) :
    TcReach obligingMachine config ok (startedPortal config).1.2 (startedPortal config).2 := by
  have hsplit : ∀ r : (BitVec 32 × World) × TcHost, r.1.1 = 0 → r = ((0, r.1.2), r.2) := by
    rintro ⟨⟨rc, w⟩, t⟩ rfl
    rfl
  have hrun := hsplit (startedPortal config) hstart
  unfold startedPortal at hrun ⊢
  exact .start emptyRouter _ _ hrun

/-- A client is authenticated. -/
def authRequest : Request := .ndsctlAuth (sampleMoment 1) "10.0.0.2".toList

/-- The portal after one request. -/
def servedPortal (config : Config) (request : Request) : World × TcHost :=
  runTc obligingMachine (serve (startedPortal config).1.2 request) (startedPortal config).2

/-- One client on two devices. -/
theorem tc_objects_match_sample :
    ObjectsMatch limitedPortal (servedPortal limitedPortal authRequest).1
        (servedPortal limitedPortal authRequest).2 ∧
      (authenticatedClients (servedPortal limitedPortal authRequest).1.fw
        (servedPortal limitedPortal authRequest).1.clients).length = 1 := by
  have hlimits : LimitsBoth limitedPortal := by
    refine ⟨by decide, by decide, by decide⟩
  refine ⟨tc_objects_match obligingMachine limitedPortal rfl _ _
    (.serve _ _ _ (startedPortal_reached (by decide +kernel)) ⟨fun _ _ => hlimits, ?_⟩), ?_⟩
  · exact fun c (hno : False) => hno.elim
  · decide +kernel

/-- A portal that limits downloads only. -/
def downloadPortal : Config := { trafficControl := true, downloadLimit := 1000 }

/-- The filters of a client stay behind when it is taken off; and a client is
attached to a device that was never set up.
SOURCE: tc.c:109-118, fw_iptables.c:779 -/
theorem tc_objects_differ :
    ¬(∀ w t, TcReach obligingMachine limitedPortal (fun _ _ => True) w t →
        ObjectsMatch limitedPortal w t) ∧
      ¬∀ w t, TcReach obligingMachine downloadPortal (fun w r => ∀ c, ¬Detaches w c r) w t →
        ObjectsMatch downloadPortal w t := by
  constructor
  · intro hall
    have hmatch := (hall _ _ (.serve _ _ (.ndsctlDeauth "10.0.0.2".toList)
      (.serve _ _ authRequest (startedPortal_reached (by decide +kernel)) trivial)
      trivial)).filters (imqName 0) (by decide)
    exact absurd hmatch (by decide +kernel)
  · intro hall
    have hmatch := (hall _ _ (.serve _ _ authRequest
      (startedPortal_reached (by decide +kernel)) fun c (hno : False) => hno)).classes (imqName 1) (by decide)
    exact absurd hmatch (by decide +kernel)

end WifiCat.Analysis
