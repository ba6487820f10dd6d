import WifiCat.Analysis.AccessGrants
import WifiCat.Analysis.PositiveAnswers

/-!
# Where access comes from, under any interleaving

The threads of the web server and of the control socket take the client list's lock section by
section, so that the action of one may fall between any two steps of another.  A client that gains
access in such a run still goes back to one thread: one that handles the client's own request and
was given an accepted answer at one of its steps, or one that handles a control command for its
address.
-/

set_option autoImplicit false

namespace WifiCat.Analysis

open CommandProgram Scan

/-! ## What one step does to the daemon -/

section Step

variable {out : Outside} {config : Config} {w : World}

/-- INTERNAL: what a step does to the daemon's state, case by case.
SOURCE: http.c:242-414, ndsctl_thread.c:275-344, firewall.c:149-199, fw_iptables.c:880-970 -/
theorem step_world (server : AuthServer) (input : StepInput) (handler : Handler)
    {J : World → Prop} (hsame : J w) (hadd : ∀ m ip, J (addClient m ip w).2)
    (hact : ∀ ip mac action answer, handler = .acting ip mac action answer →
      EndsWith J (authClientAction ip mac action w))
    (houtgoing : ∀ now line, J { w with clients := updateOutgoing now line w.clients })
    (hincoming : ∀ line, J { w with clients := updateIncoming line w.clients })
    (hrounds : ∀ now : ℕ → ℤ, EndsWith J (w.clients.firstclient.zipIdx.foldlM
      (fun w n => refreshClient (now n.2) n.1 w) w)) :
    EndsWith (fun r => J r.2) (handler.step server input w) := by
  cases handler with
  | callbackAuth r =>
    simp only [Handler.step]
    split <;> exact hadd _ _
  | callbackAction ip target action =>
    simp only [Handler.step]
    repeat' split
    all_goals exact hsame
  | verifying ip mac requestToken redir action =>
    simp only [Handler.step]
    repeat' split
    all_goals exact hsame
  | ndsctlAuth arg =>
    simp only [Handler.step]
    split <;> exact hadd _ _
  | ndsctlDeauth arg =>
    simp only [Handler.step]
    split <;> exact hsame
  | acting ip mac action answer =>
    exact Prog.always_bind (hact ip mac action answer rfl) fun w' hw' => hw'
  | countingOutgoing refresh lines =>
    cases lines with
    | nil =>
      simp only [Handler.step]
      split <;> exact hsame
    | cons line lines => exact houtgoing _ _
  | countingIncoming refresh lines =>
    cases lines with
    | nil => exact hsame
    | cons line lines => exact hincoming _
  | refreshing refresh => exact Prog.always_bind (hrounds refresh.now) fun w' hw' => hw'
  | acted ip mac action answer => exact hsame
  | answered ip mac action answer => exact hsame
  | ended answer => exact hsame
  | refreshed => exact hsame

/-- The addresses to which a step of a handler may bring access. -/
def stepGrants (handler : Handler) (k : Text × Text) : Prop :=
  ∃ answer, handler = .acting k.1 k.2 .makeAuthenticated answer

/-- INTERNAL: where the records behind a step come from: only `auth_client_action` authenticates. -/
theorem descends_step (server : AuthServer) (input : StepInput) (hinv : AccessInv config w)
    (handler : Handler) :
    EndsWith (fun r => Descends (stepGrants handler) (fun c => ∃ m ip, NewRecord m ip c) w r.2)
      (handler.step server input w) := by
  set D := Descends (stepGrants handler) (fun c => ∃ m ip, NewRecord m ip c) w with hD
  have hcounters : ∀ (cl : ClientList) a (counters : Client → Counters),
      (∀ c, (counters c).incomingHistory = c.counters.incomingHistory ∧
        (counters c).outgoingHistory = c.counters.outgoingHistory) →
      D { w with clients := cl } →
      D { w with clients := cl.modify a fun c => { c with counters := counters c } } :=
    fun cl a counters _ hcl => hcl.trans (descends_counters { w with clients := cl } a counters)
  refine step_world server input handler (J := D) (Descends.refl _ _ w)
    (fun m ip => (descends_addClient m ip w).mono (fun _ h => h) fun c hc => ⟨m, ip, hc⟩) ?_
    (fun now line => updateOutgoing_keeps hcounters now line (Descends.refl _ _ w))
    (fun line => updateIncoming_keeps hcounters line (Descends.refl _ _ w))
    fun now => descends_rounds now _ (Descends.refl _ _ w)
  rintro ip mac action answer rfl
  refine Prog.always_mono (descends_authClientAction hinv.counters ip mac action) (fun _ h => h)
    fun w' hw' => hw'.mono ?_ fun c hc => hc
  rintro k ⟨rfl, rfl⟩
  exact ⟨answer, rfl⟩

/-- INTERNAL: so only it lets a client through. -/
theorem grants_step (server : AuthServer) (input : StepInput) (hinv : AccessInv config w)
    (handler : Handler) :
    EndsWith (fun r => Grants config (stepGrants handler) w r.2) (handler.step server input w) := by
  refine Prog.always_mono (descends_step server input hinv handler) (fun _ h => h) fun r hr =>
    hr.grants ?_
  rintro c ⟨m, ip, hc⟩
  exact hinv.not_authenticated hc

/-- INTERNAL: a step keeps the invariant. -/
theorem AccessInv.step (server : AuthServer) (input : StepInput) (hinv : AccessInv config w)
    (handler : Handler) (h : Host) :
    AccessInv config (runOn out (handler.step server input w) h).1.2 := by
  have hgrants := (grants_step server input hinv handler).runOn out h
  have hkept := kept_plainCounters config
  have hcounters : ∀ (cl : ClientList) a (counters : Client → Counters),
      (∀ c, (counters c).incomingHistory = c.counters.incomingHistory ∧
        (counters c).outgoingHistory = c.counters.outgoingHistory) →
      PlainCounters config { w with clients := cl } →
      PlainCounters config
        { w with clients := cl.modify a fun c => { c with counters := counters c } } :=
    fun cl a counters hhistory hcl => hkept.counters { w with clients := cl } a counters hhistory hcl
  have hrounds : ∀ now : ℕ → ℤ, EndsWith (PlainCounters config)
      (w.clients.firstclient.zipIdx.foldlM (fun w n => refreshClient (now n.2) n.1 w) w) := by
    refine fun now => Prog.always_foldlM hinv.counters fun w' hw' n _ => ?_
    unfold refreshClient
    repeat' split
    · exact hw'
    · exact hkept.removeClient hw' _
    · exact hkept.removeClient hw' _
    · exact hw'
  have hplain := (step_world server input handler hinv.counters
    (fun m ip => hkept.add w m ip hinv.counters)
    (fun ip mac action _ _ => hkept.authClientAction hinv.counters ip mac action)
    (fun now line => updateOutgoing_keeps hcounters now line hinv.counters)
    (fun line => updateIncoming_keeps hcounters line hinv.counters) hrounds).runOn out h
  exact ⟨hplain, hgrants.mark.trans hinv.mark, hinv.fresh⟩

end Step

/-! ## How far a handler has come -/

section Handlers

variable {server : AuthServer} {inputs : List StepInput} {start handler : Handler} {w : World}

/-- A handler that started like this may authenticate the client, after steps with these inputs: it
handles the client's own request, found its MAC address at one step and was given an accepted
answer at one; or it handles the command for its IP address, and found the MAC address. -/
inductive Approved (server : AuthServer) (inputs : List StepInput) (ip mac : Text) : Handler → Prop
  | web (r : HttpRequest) (hip : r.clientAddr = ip)
      (harp : ∃ input ∈ inputs, arpGet input.http.arpTable ip = some mac)
      (hanswer : ∃ input ∈ inputs, ∃ bytes, answerBytes server input.http = some bytes ∧
        Accepted input.http.leftover bytes) :
      Approved server inputs ip mac (.callbackAuth r)
  | control (harp : ∃ input ∈ inputs, arpGet input.arrival.arpTable ip = some mac) :
      Approved server inputs ip mac (.ndsctlAuth ip)

theorem Approved.mono {inputs' : List StepInput} {ip mac : Text}
    (h : Approved server inputs ip mac start) (hsub : ∀ input ∈ inputs, input ∈ inputs') :
    Approved server inputs' ip mac start := by
  cases h with
  | web r hip harp hanswer =>
    obtain ⟨i, hi, harp⟩ := harp
    obtain ⟨j, hj, hanswer⟩ := hanswer
    exact .web r hip ⟨i, hsub i hi, harp⟩ ⟨j, hsub j hj, hanswer⟩
  | control harp =>
    obtain ⟨i, hi, harp⟩ := harp
    exact .control ⟨i, hsub i hi, harp⟩

/-- What is behind a handler that is going to authenticate a client. -/
def Justified (server : AuthServer) (start : Handler) (inputs : List StepInput) : Handler → Prop
  | .callbackAuth r => start = .callbackAuth r
  | .callbackAction ip _ action =>
    action = .makeAuthenticated → ∃ r, start = .callbackAuth r ∧ r.clientAddr = ip
  | .verifying ip mac _ _ action =>
    action = .makeAuthenticated → (∃ r, start = .callbackAuth r ∧ r.clientAddr = ip) ∧
      ∃ input ∈ inputs, arpGet input.http.arpTable ip = some mac
  | .ndsctlAuth arg => start = .ndsctlAuth arg
  | .acting ip mac action _ => action = .makeAuthenticated → Approved server inputs ip mac start
  | _ => True

theorem justified_start (hstart : start.Starts) : Justified server start [] start := by
  cases hstart with
  | callbackAuth r => exact rfl
  | callbackDeny r => exact fun h => absurd h (by decide)
  | ndsctlAuth arg => exact rfl
  | ndsctlDeauth arg => exact trivial
  | refresh input =>
    unfold Handler.refresh
    split <;> exact trivial

theorem Justified.mono {inputs' : List StepInput} (h : Justified server start inputs handler)
    (hsub : ∀ input ∈ inputs, input ∈ inputs') : Justified server start inputs' handler := by
  cases handler with
  | verifying ip mac requestToken redir action =>
    intro haction
    obtain ⟨hweb, i, hi, harp⟩ := h haction
    exact ⟨hweb, i, hsub i hi, harp⟩
  | acting ip mac action answer => exact fun haction => (h haction).mono hsub
  | _ => exact h

/-- INTERNAL: a step towards an authentication is justified by what it takes from outside.
SOURCE: http.c:262-337, ndsctl_thread.c:284-300 -/
theorem step_justified (h : Justified server start inputs handler) (input : StepInput) :
    EndsWith (fun r => Justified server start (inputs ++ [input]) r.1)
      (handler.step server input w) := by
  have hnow : input ∈ inputs ++ [input] := List.mem_append_right _ (List.mem_singleton_self input)
  have hpast : ∀ i ∈ inputs, i ∈ inputs ++ [input] := fun i hi => List.mem_append_left _ hi
  cases handler with
  | callbackAuth r =>
    simp only [Handler.step]
    split
    · exact trivial
    · exact fun _ => ⟨r, h, rfl⟩
  | callbackAction ip target action =>
    simp only [Handler.step]
    split
    · split
      · exact trivial
      · next mac harp =>
        split
        · exact trivial
        · split
          · exact trivial
          · exact fun haction => ⟨h haction, input, hnow, harp⟩
    · exact trivial
  | verifying ip mac requestToken redir action =>
    simp only [Handler.step]
    split
    · have hmono : Justified server start (inputs ++ [input])
          (.verifying ip mac requestToken redir action) := h.mono hpast
      exact hmono
    · next verified hverified =>
      split
      · exact trivial
      · next hpos =>
        intro haction
        obtain ⟨⟨r, rfl, hip⟩, i, hi, harp⟩ := h haction
        rcases tokenVerify_cases server input.http requestToken mac with
          ⟨hnone, -⟩ | ⟨verified', hverified', hiff⟩
        · rw [hnone] at hverified
          cases hverified
        · rw [hverified', Option.some.injEq] at hverified
          rw [hverified] at hiff
          exact .web r hip ⟨i, hpast i hi, harp⟩ ⟨input, hnow, hiff.mp (not_le.mp hpos)⟩
  | ndsctlAuth arg =>
    simp only [Handler.step]
    split
    · exact trivial
    · next client hclient =>
      obtain ⟨hip, harp⟩ := addClient_key hclient
      intro _
      rw [show start = .ndsctlAuth client.ip from hip ▸ h]
      exact .control ⟨input, hnow, hip ▸ harp⟩
  | ndsctlDeauth arg =>
    simp only [Handler.step]
    split
    · exact trivial
    · exact fun haction => absurd haction (by decide)
  | acting ip mac action answer =>
    exact Prog.always_bind (Prog.always_trivial _) fun _ _ => trivial
  | refreshing refresh => exact Prog.always_bind (Prog.always_trivial _) fun _ _ => trivial
  | countingOutgoing refresh lines =>
    cases lines with
    | nil =>
      simp only [Handler.step]
      split <;> exact trivial
    | cons line lines => exact trivial
  | countingIncoming refresh lines => cases lines <;> exact trivial
  | acted ip mac action answer => exact trivial
  | answered ip mac action answer => exact trivial
  | ended answer => exact trivial
  | refreshed => exact trivial

end Handlers

/-! ## Schedules -/

section Pools

variable {out : Outside} {server : AuthServer} {config : Config} {p₀ p : Pool}
  {schedule : List Turn}

/-- What the steps of one handler take from outside. -/
def inputsOf (i : ℕ) (schedule : List Turn) : List StepInput :=
  (schedule.filter (·.1 = i)).map Prod.snd

theorem mem_inputsOf_append {i : ℕ} {input : StepInput} (h : input ∈ inputsOf i schedule)
    (turn : Turn) : input ∈ inputsOf i (schedule ++ [turn]) := by
  rw [inputsOf, List.filter_append, List.map_append]
  exact List.mem_append_left _ h

theorem inputsOf_append_self (schedule : List Turn) (turn : Turn) :
    inputsOf turn.1 (schedule ++ [turn]) = inputsOf turn.1 schedule ++ [turn.2] := by
  simp [inputsOf]

/-- What holds of a pool after the steps of a schedule. -/
structure PoolInv (config : Config) (server : AuthServer) (p₀ : Pool) (past : List Turn)
    (p : Pool) : Prop where
  access : AccessInv config p.world
  handlers : ∀ i handler, p.handlers[i]? = some handler →
    ∃ start, p₀.handlers[i]? = some start ∧ Justified server start (inputsOf i past) handler
  granted : ∀ k, HasAccess config p.world k → HasAccess config p₀.world k ∨
    ∃ i start, p₀.handlers[i]? = some start ∧ Approved server (inputsOf i past) k.1 k.2 start

/-- INTERNAL: a step of the pool. -/
theorem PoolInv.step {past : List Turn} (h : PoolInv config server p₀ past p) (turn : Turn) :
    PoolInv config server p₀ (past ++ [turn]) (p.step out server turn) := by
  have hhandlers : ∀ i handler, p.handlers[i]? = some handler → ∃ start,
      p₀.handlers[i]? = some start ∧ Justified server start (inputsOf i (past ++ [turn])) handler := by
    intro i handler hhandler
    obtain ⟨start, hstart, hjustified⟩ := h.handlers i handler hhandler
    exact ⟨start, hstart, hjustified.mono fun _ hmem => mem_inputsOf_append hmem turn⟩
  have hgranted : ∀ k, HasAccess config p.world k → HasAccess config p₀.world k ∨
      ∃ i start, p₀.handlers[i]? = some start ∧
        Approved server (inputsOf i (past ++ [turn])) k.1 k.2 start := by
    intro k hk
    refine (h.granted k hk).imp_right ?_
    rintro ⟨i, start, hstart, happroved⟩
    exact ⟨i, start, hstart, happroved.mono fun _ hmem => mem_inputsOf_append hmem turn⟩
  cases hhandler : p.handlers[turn.1]? with
  | none =>
    have hsame : p.step out server turn = p := by
      rw [Pool.step, hhandler]
    rw [hsame]
    exact ⟨h.access, hhandlers, hgranted⟩
  | some handler =>
    obtain ⟨start, hstart, hjustified⟩ := h.handlers _ _ hhandler
    have hworld : (p.step out server turn).world =
        (runOn out (handler.step server turn.2 p.world) p.host).1.2 := by
      rw [Pool.step, hhandler]
    refine ⟨?_, fun i next hnext => ?_, fun k hk => ?_⟩
    · rw [hworld]
      exact h.access.step server turn.2 handler p.host
    · rcases step_handlers hnext with hold | ⟨rfl, handler', hhandler', rfl⟩
      · exact hhandlers i next hold
      · refine ⟨start, hstart, ?_⟩
        rw [hhandler, Option.some.injEq] at hhandler'
        rw [inputsOf_append_self, ← hhandler']
        exact (step_justified hjustified turn.2).runOn out p.host
    · rw [hworld] at hk
      rcases ((grants_step server turn.2 h.access handler).runOn out p.host).access k hk with
        hold | ⟨answer, rfl⟩
      · exact hgranted k hold
      · exact Or.inr ⟨turn.1, start, hstart,
          (hjustified rfl).mono fun _ hmem => mem_inputsOf_append hmem turn⟩

/-- INTERNAL: any schedule. -/
theorem poolInv_run (hstart : ∀ handler ∈ p.handlers, handler.Starts)
    (hinv : AccessInv config p.world) (schedule : List Turn) :
    PoolInv config server p schedule (p.run out server schedule) := by
  induction schedule using List.reverseRecOn with
  | nil =>
    refine ⟨hinv, fun i handler hhandler => ⟨handler, hhandler, ?_⟩, fun k hk => Or.inl hk⟩
    exact justified_start (hstart handler (List.mem_of_getElem? hhandler))
  | append_singleton schedule turn ih =>
    rw [Pool.run, List.foldl_append]
    exact ih.step turn

/-- **Access under any interleaving**: where threads of the web server, of the control socket and of
the timer start in a state that a run on bytes has led to, every client that is recorded as
authenticated after any of their steps was brought there by an event of that run, or by a thread
for its own request that was given an accepted answer, or by one for a command that names it.
SOURCE: http.c:203-385, ndsctl_thread.c:275-344, auth.c:91-134, firewall.c:149-199 -/
theorem access_under_interleaving (out : Outside) (server : HttpdServer) (config : Config)
    (events : List GatewayEvent) (h : Host) (p : Pool)
    (hrun : runOn out (gatewayRun server config events) h = (some p.world, p.host))
    (hstart : ∀ handler ∈ p.handlers, handler.Starts) (schedule : List Turn) (c : Client)
    (hc : c ∈ (p.run out server.remote.toAuthServer schedule).world.clients.firstclient)
    (hstate : c.fwConnectionState = config.fwMarkAuthenticated) :
    (∃ event ∈ events, Authenticates server event (c.ip, c.mac)) ∨
      ∃ i start, p.handlers[i]? = some start ∧
        Approved server.remote.toAuthServer (inputsOf i schedule) c.ip c.mac start := by
  obtain ⟨hinv, haccess⟩ := gatewayRun_access hrun
  exact ((poolInv_run hstart hinv schedule).granted (c.ip, c.mac) ⟨c, hc, rfl, hstate⟩).imp_left
    (haccess _)

/-- The thread of a control command, and that of a client's own request. -/
def commandAndRequest : List Handler :=
  [.ndsctlAuth "10.0.0.2".toList,
    .callbackAuth { clientAddr := "10.0.0.3".toList, tok := some "x".toList, redir := none }]

/-- The second thread begins before the first one acts. -/
def firstThreadActs : List Turn :=
  [(0, ⟨sampleMoment 1, silentServer⟩), (1, ⟨sampleMoment 2, silentServer⟩),
    (0, ⟨sampleMoment 1, silentServer⟩)]

/-- INTERNAL: a start without events. -/
theorem gatewayRun_nil (server : HttpdServer) (config : Config) :
    gatewayRun server config [] = daemonRun config [] := rfl

/-- The client of the first thread is let through. -/
theorem access_under_interleaving_sample :
    ∃ (p : Pool) (c : Client), p.handlers = commandAndRequest ∧
      c ∈ (p.run obligingMachine plainServer.remote.toAuthServer
        firstThreadActs).world.clients.firstclient ∧
      ((∃ event ∈ [], Authenticates plainServer event (c.ip, c.mac)) ∨
        ∃ i start, p.handlers[i]? = some start ∧
          Approved plainServer.remote.toAuthServer (inputsOf i firstThreadActs) c.ip c.mac start) := by
  have hcheck : checkEnd obligingMachine {} [] emptyRouter (fun w h' =>
      (Pool.run obligingMachine plainServer.remote.toAuthServer ⟨commandAndRequest, w, h'⟩
        firstThreadActs).world.clients.firstclient.any
          fun c => c.fwConnectionState == ({} : Config).fwMarkAuthenticated) = true := by
    decide +kernel
  obtain ⟨w, h', hreach, hstate⟩ := reaches_of_checkEnd hcheck
  obtain ⟨c, hc, hmark⟩ := List.any_eq_true.mp hstate
  have hstart : ∀ handler ∈ commandAndRequest, handler.Starts := by
    simp only [commandAndRequest, List.forall_mem_cons, List.not_mem_nil, false_imp_iff,
      implies_true, and_true]
    exact ⟨.ndsctlAuth _, .callbackAuth _⟩
  have hrun : runOn obligingMachine (gatewayRun plainServer {} []) emptyRouter = (some w, h') := by
    rw [gatewayRun_nil]
    exact hreach.run
  exact ⟨⟨commandAndRequest, w, h'⟩, c, rfl, hc, access_under_interleaving obligingMachine
    plainServer {} [] emptyRouter ⟨commandAndRequest, w, h'⟩ hrun hstart firstThreadActs c hc
    (eq_of_beq hmark)⟩

end Pools

end WifiCat.Analysis
