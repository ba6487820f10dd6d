import WifiCat.Analysis.ServerApproval
import WifiCat.Analysis.WorldInvariant
import WifiCat.Model.Handlers

/-!
# Positive answers

Between the look-up of a client and the action on it, a handler does not hold the client
list's lock, and `auth_client_action` does not say whether it found the client.  A handler
that answers positively has authenticated its client exactly when the client was still
listed when the action took the lock (`positive_answers_iff`); that is so in every run in
which no client is removed (`listed_of_no_removal`).
-/

set_option autoImplicit false

namespace WifiCat.Analysis

open CommandProgram Scan

variable {out : Outside} {server : AuthServer} {p : Pool} {schedule : List Turn} {w : World}
  {ip mac : Text} {h : Host}

/-! ## One step -/

/-- The client list has a client with these addresses. -/
def Listed (ip mac : Text) (w : World) : Prop := clientListFind ip mac w.clients ≠ none

/-- The client list has the client, in the state of an authenticated one. -/
def Authenticated (ip mac : Text) (w : World) : Prop :=
  ∃ client, clientListFind ip mac w.clients = some client ∧
    client.fwConnectionState = w.fw.fwMarkAuthenticated

/-- INTERNAL: a client that is found before a change of another field is found after it. -/
theorem clientListFind_modify {cl : ClientList} {client : Client} {f : Client → Client}
    (hf : ∀ c, (f c).ip = c.ip ∧ (f c).mac = c.mac) (hfind : clientListFind ip mac cl = some client) :
    clientListFind ip mac (cl.modify client.addr f) = some (f client) := by
  simp only [clientListFind, ClientList.modify, List.find?_map] at hfind ⊢
  have hsame : ((fun c : Client => c.ip == ip && c.mac == mac) ∘
      fun c => if c.addr = client.addr then f c else c) = fun c => c.ip == ip && c.mac == mac := by
    funext c
    dsimp only [Function.comp_apply]
    split
    · rw [(hf c).1, (hf c).2]
    · rfl
  rw [hsame, hfind, Option.map_some, if_pos rfl]

/-- INTERNAL: opening or closing the firewall keeps the marks.
SOURCE: fw_iptables.c:746-800 -/
theorem access_fw (out : Outside) (config : Config) (fw : Firewall) (action : AuthAction)
    (client : Client) (h : Host) :
    (runOn out (iptablesFwAccess config fw action client) h).1.2 = { fw with fwQuiet := false } := by
  cases action <;>
    simp only [runOn, iptablesFwAccess, Prog.run_bind, Prog.pure_eq, Prog.run_done]

/-- INTERNAL: `auth_client_action` authenticates the client exactly when it finds it.
SOURCE: auth.c:93-134 -/
theorem authenticated_iff_listed (out : Outside) (w : World) (h : Host) :
    Authenticated ip mac (runOn out (authClientAction ip mac .makeAuthenticated w) h).1 ↔
      Listed ip mac w := by
  unfold Listed
  cases hfind : clientListFind ip mac w.clients with
  | none =>
    refine iff_of_false ?_ fun hne => hne rfl
    rintro ⟨client, hclient, -⟩
    simp only [authClientAction, hfind, runOn, Prog.pure_eq, Prog.run_done, reduceCtorEq] at hclient
  | some client =>
    refine iff_of_true ?_ (by simp)
    by_cases hstate : client.fwConnectionState = w.fw.fwMarkAuthenticated
    · simp only [authClientAction, hfind, hstate, ne_eq, not_true_eq_false, if_false, runOn,
        Prog.pure_eq, Prog.run_done]
      exact ⟨client, hfind, hstate⟩
    · have haccess := access_fw out w.config w.fw .makeAuthenticated
        { client with fwConnectionState := w.fw.fwMarkAuthenticated } h
      simp only [authClientAction, hfind, hstate, ne_eq, not_false_eq_true, if_true, runOn,
        Prog.run_bind, Prog.pure_eq, Prog.run_done] at haccess ⊢
      refine ⟨_, clientListFind_modify (fun c => ⟨rfl, rfl⟩) hfind, ?_⟩
      rw [haccess]

/-- The handler has taken its action. -/
def hasActed : Handler → Bool
  | .acted .. => true
  | .answered .. => true
  | _ => false

/-- A handler that has just acted was before its action, and one that has answered had acted. -/
structure ActsInOrder (handler next : Handler) : Prop where
  acted : ∀ ip mac action answer, next = .acted ip mac action answer →
    handler = .acting ip mac action answer
  answered : ∀ ip mac action answer, next = .answered ip mac action answer →
    handler = .acted ip mac action answer ∨ handler = .answered ip mac action answer

theorem actsInOrder_of_not {handler next : Handler} (h : hasActed next = false) :
    ActsInOrder handler next := by
  constructor <;> rintro ip mac action answer rfl <;> cases h

/-- INTERNAL: one step goes through the action in order.
SOURCE: http.c:335-344, ndsctl_thread.c:300-306 -/
theorem step_actsInOrder (server : AuthServer) (input : StepInput) (w : World) (handler : Handler) :
    EndsWith (fun r => ActsInOrder handler r.1) (handler.step server input w) := by
  have hno : ∀ {next : Handler}, hasActed next = false → ActsInOrder handler next :=
    actsInOrder_of_not
  cases handler with
  | acting ip mac action answer =>
    refine Prog.always_bind (Prog.always_trivial _) fun w' _ => ⟨?_, ?_⟩
    · rintro _ _ _ _ ⟨⟩
      rfl
    · rintro _ _ _ _ ⟨⟩
  | acted ip mac action answer =>
    refine ⟨?_, ?_⟩
    · rintro _ _ _ _ ⟨⟩
    · rintro _ _ _ _ ⟨⟩
      exact Or.inl rfl
  | answered ip mac action answer =>
    refine ⟨?_, ?_⟩
    · rintro _ _ _ _ ⟨⟩
    · rintro _ _ _ _ ⟨⟩
      exact Or.inr rfl
  | refreshing input => exact Prog.always_bind (Prog.always_trivial _) fun _ _ => hno rfl
  | countingOutgoing input lines =>
    cases lines with
    | nil =>
      simp only [Handler.step]
      split <;> exact hno rfl
    | cons line lines => exact hno rfl
  | countingIncoming input lines => cases lines <;> exact hno rfl
  | ended answer => exact hno rfl
  | refreshed => exact hno rfl
  | callbackAuth r =>
    simp only [Handler.step]
    split <;> exact hno rfl
  | callbackAction ip target action =>
    simp only [Handler.step]
    repeat' split
    all_goals exact hno rfl
  | verifying ip mac requestToken redir action =>
    simp only [Handler.step]
    repeat' split
    all_goals exact hno rfl
  | ndsctlAuth arg =>
    simp only [Handler.step]
    split <;> exact hno rfl
  | ndsctlDeauth arg =>
    simp only [Handler.step]
    split <;> exact hno rfl

/-! ## A handler alone -/

section Alone

variable (server : AuthServer) (input : StepInput) (w : World)

/-- What a handler has written back, and the state it leaves. -/
def outcome (r : Handler × World) : Option Answer × World := (r.1.answer, r.2)

/-- INTERNAL: the action and the answer.
SOURCE: auth.c:93-134 -/
theorem acting_alone (ip mac : Text) (action : AuthAction) (answer : Answer) :
    outcome <$> Handler.steps server [input, input] (.acting ip mac action answer) w =
      authClientAction ip mac action w >>= fun w => pure (some answer, w) := by
  simp [Handler.steps, Handler.step, outcome, Handler.answer]

/-- INTERNAL: a handler that is not interrupted is the function of the control socket.
SOURCE: ndsctl_thread.c:275-344 -/
theorem ndsctlAuth_alone (arg : Text) :
    outcome <$> Handler.steps server [input, input, input] (.ndsctlAuth arg) w =
      (fun r => (some (.ndsctl r.1), r.2)) <$> ndsctlAuth input.arrival arg w := by
  unfold ndsctlAuth
  cases hadded : (addClient input.arrival arg w).1 with
  | none => simp [Handler.steps, Handler.step, hadded, outcome, Handler.answer]
  | some client =>
    have haction := acting_alone server input (addClient input.arrival arg w).2 client.ip client.mac
      .makeAuthenticated (.ndsctl .Yes)
    simpa [Handler.steps, Handler.step, hadded] using haction

theorem ndsctlDeauth_alone (arg : Text) :
    outcome <$> Handler.steps server [input, input, input] (.ndsctlDeauth arg) w =
      (fun r => (some (.ndsctl r.1), r.2)) <$> ndsctlDeauth arg w := by
  unfold ndsctlDeauth
  cases hfind : (clientListFindByIp arg w.clients).or (clientListFindByMac arg w.clients) with
  | none => simp [Handler.steps, Handler.step, hfind, outcome, Handler.answer]
  | some client =>
    have haction := acting_alone server input w client.ip client.mac .makeDeauthenticated
      (.ndsctl .Yes)
    simpa [Handler.steps, Handler.step, hfind] using haction

/-- INTERNAL: so it is that of the web server.
SOURCE: http.c:242-352 -/
theorem callbackAction_alone (r : HttpRequest) (target : AuthTarget) (action : AuthAction) :
    outcome <$> Handler.steps server [input, input, input, input]
        (.callbackAction r.clientAddr target action) w =
      (fun r => (r.1.map .http, r.2)) <$> httpCallbackAction server input.http r target action w := by
  have hended : ∀ (reply : HttpReply) (next : Handler), next = .ended (.http reply) →
      outcome <$> Handler.steps server [input, input, input] next w =
        pure (some (.http reply), w) := by
    rintro reply next rfl
    simp [Handler.steps, Handler.step, outcome, Handler.answer]
  have hfirst : ∀ next, (Handler.callbackAction r.clientAddr target action).step server input w =
      pure (next, w) → Handler.steps server [input, input, input, input]
        (.callbackAction r.clientAddr target action) w =
      Handler.steps server [input, input, input] next w := by
    intro next hnext
    rw [Handler.steps, List.foldlM_cons]
    simp only [hnext, Prog.pure_eq, Prog.done_bind]
    rfl
  obtain ⟨token, redir⟩ := target
  unfold httpCallbackAction
  cases token with
  | none =>
    rw [hfirst _ rfl, hended _ _ rfl]
    rfl
  | some requestToken =>
    cases redir with
    | none =>
      rw [hfirst _ rfl, hended _ _ rfl]
      rfl
    | some redir =>
      cases harp : arpGet input.http.arpTable r.clientAddr with
      | none =>
        rw [hfirst _ (by simp only [Handler.step, harp]; rfl), hended _ _ rfl]
        simp [harp]
      | some mac =>
        cases hfind : clientListFind r.clientAddr mac w.clients with
        | none =>
          rw [hfirst _ (by simp only [Handler.step, harp, hfind]; rfl), hended _ _ rfl]
          simp [harp, hfind]
        | some client =>
          cases htoken : client.token with
          | none =>
            rw [hfirst _ (by simp only [Handler.step, harp, hfind, htoken]; rfl), hended _ _ rfl]
            simp [harp, hfind, htoken]
          | some token =>
            rw [hfirst _ (by simp only [Handler.step, harp, hfind, htoken]; rfl)]
            cases hverify : tokenVerify server input.http requestToken mac with
            | none => simp [Handler.steps, Handler.step, outcome, Handler.answer, harp, hfind,
                htoken, hverify]
            | some verified =>
              by_cases hle : verified ≤ 0
              · simp [Handler.steps, Handler.step, outcome, Handler.answer, harp, hfind, htoken,
                  hverify, hle]
              · have haction := acting_alone server input w r.clientAddr mac action
                  (actionAnswer redir action)
                simp only [Handler.steps, List.foldlM_cons, List.foldlM_nil] at haction ⊢
                simp only [Handler.step, hverify, hle, if_false, Prog.pure_eq, Prog.done_bind,
                  harp, hfind, htoken] at haction ⊢
                rw [haction]
                cases action <;> simp [actionAnswer]

end Alone

/-! ## A run -/

/-- At the `k`-th step of the schedule the `i`-th handler takes the action to authenticate the
client. -/
def ActsAt (out : Outside) (server : AuthServer) (p : Pool) (schedule : List Turn) (k i : ℕ)
    (ip mac : Text) : Prop :=
  (∃ turn, schedule[k]? = some turn ∧ turn.1 = i) ∧
    ∃ answer, (p.run out server (schedule.take k)).handlers[i]? =
      some (.acting ip mac .makeAuthenticated answer)

/-- The `i`-th handler has answered, positively, that the client is authenticated. -/
def AnsweredPositively (p : Pool) (i : ℕ) (ip mac : Text) : Prop :=
  ∃ answer, p.handlers[i]? = some (.answered ip mac .makeAuthenticated answer)

/-- Each handler that has answered positively took its action, at the end of which the client
was on the list, authenticated. -/
def PositiveAnswersHold (out : Outside) (server : AuthServer) (p : Pool) (schedule : List Turn) :
    Prop :=
  ∀ i ip mac, AnsweredPositively (p.run out server schedule) i ip mac →
    (∃ k, ActsAt out server p schedule k i ip mac) ∧
      ∀ k, ActsAt out server p schedule k i ip mac →
        Authenticated ip mac (p.run out server (schedule.take (k + 1))).world

/-- INTERNAL: the pool after one more step. -/
theorem run_take_succ {k : ℕ} {turn : Turn} (hturn : schedule[k]? = some turn) :
    p.run out server (schedule.take (k + 1)) =
      (p.run out server (schedule.take k)).step out server turn := by
  rw [List.take_add_one, hturn, Pool.run, List.foldl_append]
  rfl

/-- INTERNAL: the action of a step is the whole change of the state.
SOURCE: auth.c:93-134 -/
theorem world_of_acting {k i : ℕ} (hacts : ActsAt out server p schedule k i ip mac) :
    (p.run out server (schedule.take (k + 1))).world =
      (runOn out (authClientAction ip mac .makeAuthenticated
        (p.run out server (schedule.take k)).world) (p.run out server (schedule.take k)).host).1 := by
  obtain ⟨⟨turn, hturn, rfl⟩, answer, hhandler⟩ := hacts
  rw [run_take_succ hturn, Pool.step, hhandler]
  simp only [Handler.step, runOn, Prog.run_bind, Prog.pure_eq, Prog.run_done]

/-- INTERNAL: the handler that makes the step, and those that do not.
SOURCE: ndsctl_thread.c:278-344, http.c:242-414 -/
theorem step_handlers {turn : Turn} {i : ℕ} {next : Handler}
    (hnext : (p.step out server turn).handlers[i]? = some next) :
    p.handlers[i]? = some next ∨ turn.1 = i ∧ ∃ handler, p.handlers[i]? = some handler ∧
      next = (runOn out (handler.step server turn.2 p.world) p.host).1.1 := by
  unfold Pool.step at hnext
  split at hnext
  · exact Or.inl hnext
  · next handler hhandler =>
    by_cases hi : turn.1 = i
    · subst hi
      rw [List.getElem?_set_self (List.getElem?_eq_some_iff.mp hhandler).1, Option.some.injEq] at hnext
      exact Or.inr ⟨rfl, handler, hhandler, hnext.symm⟩
    · rw [List.getElem?_set_ne hi] at hnext
      exact Or.inl hnext

/-- INTERNAL: a handler that has acted or answered took its action at some step. -/
theorem exists_actsAt (hstart : ∀ handler ∈ p.handlers, handler.Starts) {i : ℕ} {answer : Answer}
    (n : ℕ) (h : (p.run out server (schedule.take n)).handlers[i]? =
        some (.acted ip mac .makeAuthenticated answer) ∨
      (p.run out server (schedule.take n)).handlers[i]? =
        some (.answered ip mac .makeAuthenticated answer)) :
    ∃ k, ActsAt out server p schedule k i ip mac := by
  induction n with
  | zero =>
    have hnot : ∀ handler ∈ p.handlers, hasActed handler = false := fun handler hmem => by
      cases hstart handler hmem with
      | refresh input =>
        unfold Handler.refresh
        split <;> rfl
      | _ => rfl
    rcases h with h | h <;> exact absurd (hnot _ (List.mem_of_getElem? h)) (by simp [hasActed])
  | succ n ih =>
    cases hturn : schedule[n]? with
    | none =>
      rw [List.take_add_one, hturn, Option.toList_none, List.append_nil] at h
      exact ih h
    | some turn =>
      rw [run_take_succ hturn] at h
      rcases h with h | h
      · rcases step_handlers h with h | ⟨rfl, handler, hhandler, hnext⟩
        · exact ih (Or.inl h)
        · have hacts := ((step_actsInOrder server turn.2 _ handler).runOn out _).acted _ _ _ _ hnext.symm
          exact ⟨n, ⟨turn, hturn, rfl⟩, answer, hhandler.trans (congrArg some hacts)⟩
      · rcases step_handlers h with h | ⟨rfl, handler, hhandler, hnext⟩
        · exact ih (Or.inr h)
        · rcases ((step_actsInOrder server turn.2 _ handler).runOn out _).answered _ _ _ _ hnext.symm
            with hacted | hanswered
          · exact ih (Or.inl (hhandler.trans (congrArg some hacted)))
          · exact ih (Or.inr (hhandler.trans (congrArg some hanswered)))

/-- **Positive answers are right** in a run exactly when each handler that gives one finds its
client on the list when its action takes the lock.
SOURCE: ndsctl_thread.c:278-309, http.c:274-339, auth.c:93-134, firewall.c:160-198 -/
theorem positive_answers_iff (out : Outside) (server : AuthServer) (p : Pool)
    (schedule : List Turn) (hstart : ∀ handler ∈ p.handlers, handler.Starts) :
    PositiveAnswersHold out server p schedule ↔
      ∀ i ip mac, AnsweredPositively (p.run out server schedule) i ip mac →
        ∀ k, ActsAt out server p schedule k i ip mac →
          Listed ip mac (p.run out server (schedule.take k)).world := by
  have hstep : ∀ k i ip mac, ActsAt out server p schedule k i ip mac →
      (Authenticated ip mac (p.run out server (schedule.take (k + 1))).world ↔
        Listed ip mac (p.run out server (schedule.take k)).world) := fun k i ip mac hacts => by
    rw [world_of_acting hacts]
    exact authenticated_iff_listed out _ _
  constructor
  · intro h i ip mac hanswer k hacts
    exact (hstep k i ip mac hacts).mp ((h i ip mac hanswer).2 k hacts)
  · intro h i ip mac hanswer
    refine ⟨?_, fun k hacts => (hstep k i ip mac hacts).mpr (h i ip mac hanswer k hacts)⟩
    obtain ⟨answer, hanswer⟩ := hanswer
    rw [← List.take_length (l := schedule)] at hanswer
    exact exists_actsAt hstart schedule.length (Or.inr hanswer)

/-! ## Runs without removals -/

/-- The next step may remove a client. -/
def Removes : Handler → Prop
  | .acting _ _ .makeDeauthenticated _ => True
  | .refreshing _ => True
  | _ => False

/-- A handler that will act on a client counts on finding it. -/
def Expects (w : World) : Handler → Prop
  | .verifying ip mac _ _ _ => Listed ip mac w
  | .acting ip mac _ _ => Listed ip mac w
  | _ => True

theorem listed_iff : Listed ip mac w ↔ (ip, mac) ∈ w.clients.firstclient.map clientKey := by
  constructor
  · intro hlisted
    obtain ⟨client, hfind⟩ := Option.ne_none_iff_exists'.mp hlisted
    obtain ⟨hmem, rfl, rfl⟩ := clientListFind_eq_some hfind
    exact List.mem_map_of_mem (f := clientKey) hmem
  · intro hmem hnone
    exact clientListFind_eq_none hnone hmem

theorem listed_of_mem {client : Client} (h : client ∈ w.clients.firstclient) :
    Listed client.ip client.mac w :=
  listed_iff.mpr (List.mem_map_of_mem (f := clientKey) h)

/-- INTERNAL: adding a client removes none, and the client it answers with is listed.
SOURCE: client_list.c:191-216 -/
theorem addClient_listed (m : Moment) (arg : Text) (w : World) :
    (∀ ip mac, Listed ip mac w → Listed ip mac (addClient m arg w).2) ∧
      ∀ client, (addClient m arg w).1 = some client →
        Listed client.ip client.mac (addClient m arg w).2 := by
  obtain ⟨hkeep, hmem⟩ := clientListAddClient_mem w.config.maxclients m.arrival arg w.clients
  refine ⟨fun ip mac hlisted => ?_, fun client hclient => listed_of_mem (hmem client hclient)⟩
  obtain ⟨c, hfind⟩ := Option.ne_none_iff_exists'.mp hlisted
  obtain ⟨hc, rfl, rfl⟩ := clientListFind_eq_some hfind
  exact listed_of_mem (hkeep c hc)

/-- INTERNAL: a change of other fields keeps the listed clients. -/
theorem listed_modify {cl : ClientList} {a : ℕ} {f : Client → Client}
    (hf : ∀ c, clientKey (f c) = clientKey c)
    (h : (ip, mac) ∈ cl.firstclient.map clientKey) :
    (ip, mac) ∈ (cl.modify a f).firstclient.map clientKey := by
  have hkeys : (cl.modify a f).firstclient.map clientKey = cl.firstclient.map clientKey := by
    simp only [ClientList.modify, List.map_map]
    refine List.map_congr_left fun c _ => ?_
    dsimp only [Function.comp_apply]
    split
    · exact hf c
    · rfl
  rwa [hkeys]

/-- INTERNAL: a step that removes no client keeps the listed ones.
SOURCE: auth.c:93-134, fw_iptables.c:880-970 -/
theorem step_keeps_listed {handler : Handler} {input : StepInput} (hnot : ¬Removes handler)
    (hlisted : Listed ip mac w) :
    EndsWith (fun r => Listed ip mac r.2) (handler.step server input w) := by
  have hcounters : ∀ (cl : ClientList) a (counters : Client → Counters),
      (∀ c, (counters c).incomingHistory = c.counters.incomingHistory ∧
        (counters c).outgoingHistory = c.counters.outgoingHistory) →
      (ip, mac) ∈ cl.firstclient.map clientKey →
      (ip, mac) ∈ (cl.modify a fun c => { c with counters := counters c }).firstclient.map clientKey :=
    fun cl a counters _ hmem => listed_modify (fun c => rfl) hmem
  cases handler with
  | acting ip' mac' action answer =>
    cases action with
    | makeDeauthenticated => exact absurd trivial hnot
    | makeAuthenticated =>
      refine Prog.always_bind (P := Listed ip mac) ?_ fun w' hw' => hw'
      unfold authClientAction
      split
      · exact hlisted
      · dsimp only
        split
        · refine Prog.always_bind (Prog.always_trivial _) fun access _ => ?_
          exact listed_iff.mpr (listed_modify (fun c => rfl) (listed_iff.mp hlisted))
        · exact hlisted
  | refreshing input => exact absurd trivial hnot
  | countingOutgoing input lines =>
    cases lines with
    | nil =>
      simp only [Handler.step]
      split <;> exact hlisted
    | cons line lines =>
      exact listed_iff.mpr (updateOutgoing_keeps hcounters _ _ (listed_iff.mp hlisted))
  | countingIncoming input lines =>
    cases lines with
    | nil => exact hlisted
    | cons line lines =>
      exact listed_iff.mpr (updateIncoming_keeps hcounters _ (listed_iff.mp hlisted))
  | callbackAuth r =>
    have hadd := (addClient_listed input.arrival r.clientAddr w).1 ip mac hlisted
    simp only [Handler.step]
    split <;> exact hadd
  | ndsctlAuth arg =>
    have hadd := (addClient_listed input.arrival arg w).1 ip mac hlisted
    simp only [Handler.step]
    split <;> exact hadd
  | callbackAction ip' target action =>
    simp only [Handler.step]
    repeat' split
    all_goals exact hlisted
  | verifying ip' mac' requestToken redir action =>
    simp only [Handler.step]
    repeat' split
    all_goals exact hlisted
  | ndsctlDeauth arg =>
    simp only [Handler.step]
    split <;> exact hlisted
  | acted ip' mac' action answer => exact hlisted
  | answered ip' mac' action answer => exact hlisted
  | ended answer => exact hlisted
  | refreshed => exact hlisted

/-- INTERNAL: after its step a handler finds the client it will act on.
SOURCE: http.c:274-310, ndsctl_thread.c:284-300, 318-335 -/
theorem step_expects {handler : Handler} {input : StepInput} (hexpects : Expects w handler) :
    EndsWith (fun r => Expects r.2 r.1) (handler.step server input w) := by
  cases handler with
  | callbackAuth r =>
    simp only [Handler.step]
    split <;> exact trivial
  | callbackAction ip target action =>
    simp only [Handler.step]
    split
    · split
      · exact trivial
      · split
        · exact trivial
        · next client hfind =>
          split
          · exact trivial
          · show Listed _ _ w
            rw [Listed, hfind]
            exact Option.some_ne_none client
    · exact trivial
  | verifying ip mac requestToken redir action =>
    simp only [Handler.step]
    split
    · exact hexpects
    · split
      · exact trivial
      · exact hexpects
  | ndsctlAuth arg =>
    simp only [Handler.step]
    split
    · exact trivial
    · next client hclient => exact (addClient_listed input.arrival arg w).2 client hclient
  | ndsctlDeauth arg =>
    simp only [Handler.step]
    split
    · exact trivial
    · next client hclient =>
      refine listed_of_mem ?_
      rcases Option.or_eq_some_iff.mp hclient with hip | ⟨-, hmac⟩
      · exact List.mem_of_find?_eq_some hip
      · exact List.mem_of_find?_eq_some hmac
  | acting ip mac action answer =>
    exact Prog.always_bind (Prog.always_trivial _) fun _ _ => trivial
  | acted ip mac action answer => exact trivial
  | answered ip mac action answer => exact trivial
  | ended answer => exact trivial
  | refreshed => exact trivial
  | refreshing input => exact Prog.always_bind (Prog.always_trivial _) fun _ _ => trivial
  | countingOutgoing input lines =>
    cases lines with
    | nil =>
      simp only [Handler.step]
      split <;> exact trivial
    | cons line lines => exact trivial
  | countingIncoming input lines => cases lines <;> exact trivial

theorem Expects.mono {w' : World} {handler : Handler}
    (hkeep : ∀ ip mac, Listed ip mac w → Listed ip mac w') (h : Expects w handler) :
    Expects w' handler := by
  cases handler with
  | verifying ip mac requestToken redir action => exact hkeep ip mac h
  | acting ip mac action answer => exact hkeep ip mac h
  | _ => exact trivial

/-- INTERNAL: a step of the pool that removes no client.
SOURCE: http.c:274-310, ndsctl_thread.c:284-300, 318-335 -/
theorem expects_step {turn : Turn}
    (hkeep : ∀ handler, p.handlers[turn.1]? = some handler → ¬Removes handler)
    (h : ∀ handler ∈ p.handlers, Expects p.world handler) :
    ∀ handler ∈ (p.step out server turn).handlers,
      Expects (p.step out server turn).world handler := by
  unfold Pool.step
  split
  · exact h
  · next stepping hstepping =>
    have hlisted : ∀ ip mac, Listed ip mac p.world → Listed ip mac
        (runOn out (stepping.step server turn.2 p.world) p.host).1.2 := fun ip mac hip =>
      (step_keeps_listed (hkeep stepping hstepping) hip).runOn out p.host
    intro handler hmem
    rcases List.mem_or_eq_of_mem_set hmem with hold | rfl
    · exact (h handler hold).mono hlisted
    · exact (step_expects (h stepping (List.mem_of_getElem? hstepping))).runOn out p.host

/-- INTERNAL: **a run in which no client is removed**: every handler finds the client it acts
on.
SOURCE: auth.c:97-106 -/
theorem listed_of_no_removal (hstart : ∀ handler ∈ p.handlers, handler.Starts)
    (hkeep : ∀ k turn handler, schedule[k]? = some turn →
      (p.run out server (schedule.take k)).handlers[turn.1]? = some handler → ¬Removes handler)
    {k i : ℕ} (hacts : ActsAt out server p schedule k i ip mac) :
    Listed ip mac (p.run out server (schedule.take k)).world := by
  have hexpects : ∀ n, ∀ handler ∈ (p.run out server (schedule.take n)).handlers,
      Expects (p.run out server (schedule.take n)).world handler := by
    intro n
    induction n with
    | zero =>
      intro handler hmem
      cases hstart handler hmem with
      | refresh input =>
        unfold Handler.refresh
        split <;> exact trivial
      | _ => exact trivial
    | succ n ih =>
      cases hturn : schedule[n]? with
      | none =>
        rw [List.take_add_one, hturn, Option.toList_none, List.append_nil]
        exact ih
      | some turn =>
        rw [run_take_succ hturn]
        exact expects_step (fun handler hhandler => hkeep n turn handler hturn hhandler) ih
  obtain ⟨-, answer, hhandler⟩ := hacts
  exact hexpects k _ (List.mem_of_getElem? hhandler)

/-- A client is authenticated with `ndsctl` while another `ndsctl` deauthenticates it. -/
def authAndDeauth : Pool :=
  { handlers := [.ndsctlAuth "10.0.0.2".toList, .ndsctlDeauth "10.0.0.2".toList]
    world := idleWorld
    host := emptyRouter }

/-- The second one acts between the first one's look-up and its action. -/
def removalBetween : List Turn :=
  let input : StepInput := { arrival := sampleMoment 1, http := silentServer }
  [(0, input), (1, input), (1, input), (0, input), (0, input)]

theorem authAndDeauth_starts : ∀ handler ∈ authAndDeauth.handlers, handler.Starts := by
  intro handler hmem
  simp only [authAndDeauth, List.mem_cons, List.not_mem_nil, or_false] at hmem
  rcases hmem with rfl | rfl
  · exact Handler.Starts.ndsctlAuth _
  · exact Handler.Starts.ndsctlDeauth _

/-- The client a handler will authenticate next. -/
def authenticating : Option Handler → Option (Text × Text)
  | some (.acting ip mac .makeAuthenticated _) => some (ip, mac)
  | _ => none

/-- The client a handler has answered for. -/
def positiveAnswer : Option Handler → Option (Text × Text)
  | some (.answered ip mac .makeAuthenticated _) => some (ip, mac)
  | _ => none

theorem authenticating_eq {handler : Option Handler}
    (h : authenticating handler = some (ip, mac)) :
    ∃ answer, handler = some (.acting ip mac .makeAuthenticated answer) := by
  unfold authenticating at h
  split at h
  · next answer =>
    obtain ⟨rfl, rfl⟩ := h
    exact ⟨answer, rfl⟩
  · cases h

theorem positiveAnswer_eq {handler : Option Handler}
    (h : positiveAnswer handler = some (ip, mac)) :
    ∃ answer, handler = some (.answered ip mac .makeAuthenticated answer) := by
  unfold positiveAnswer at h
  split at h
  · next answer =>
    obtain ⟨rfl, rfl⟩ := h
    exact ⟨answer, rfl⟩
  · cases h

/-- The second one acts behind the first one's answer. -/
def removalBehind : List Turn :=
  let input : StepInput := { arrival := sampleMoment 1, http := silentServer }
  [(0, input), (0, input), (0, input), (1, input), (1, input)]

/-- `ndsctl auth` answers Yes, and its client was on the list when it acted. -/
theorem positive_answers_sample :
    AnsweredPositively (authAndDeauth.run obligingMachine {} removalBehind) 0
        "10.0.0.2".toList "00:11:22:33:44:55".toList ∧
      PositiveAnswersHold obligingMachine {} authAndDeauth removalBehind := by
  have hanswered : positiveAnswer
      (authAndDeauth.run obligingMachine {} removalBehind).handlers[0]? =
        some ("10.0.0.2".toList, "00:11:22:33:44:55".toList) := by
    decide +kernel
  have hlisted : ∀ k < 5, ∀ i < 2, ∀ client ∈ authenticating
      (authAndDeauth.run obligingMachine {} (removalBehind.take k)).handlers[i]?,
        (clientListFind client.1 client.2
          (authAndDeauth.run obligingMachine {} (removalBehind.take k)).world.clients).isSome := by
    decide +kernel
  have hturns : ∀ turn ∈ removalBehind, turn.1 < 2 := by simp [removalBehind]
  refine ⟨positiveAnswer_eq hanswered, (positive_answers_iff obligingMachine {} authAndDeauth
    removalBehind authAndDeauth_starts).mpr fun i ip mac _ k hacts => ?_⟩
  obtain ⟨⟨turn, hturn, rfl⟩, answer, hhandler⟩ := hacts
  obtain ⟨hk, -⟩ := List.getElem?_eq_some_iff.mp hturn
  exact Option.isSome_iff_ne_none.mp
    (hlisted k hk turn.1 (hturns turn (List.mem_of_getElem? hturn)) (ip, mac) (by rw [hhandler]; rfl))

/-- `ndsctl auth` answers Yes, and its client is not on the list.
SOURCE: ndsctl_thread.c:300-306, auth.c:100-106 -/
theorem yes_without_client : (∀ handler ∈ authAndDeauth.handlers, handler.Starts) ∧
    ¬PositiveAnswersHold obligingMachine {} authAndDeauth removalBetween := by
  refine ⟨authAndDeauth_starts, fun h => ?_⟩
  have hanswered : positiveAnswer
      (authAndDeauth.run obligingMachine {} removalBetween).handlers[0]? =
        some ("10.0.0.2".toList, "00:11:22:33:44:55".toList) := by
    decide +kernel
  have hacting : authenticating
      (authAndDeauth.run obligingMachine {} (removalBetween.take 3)).handlers[0]? =
        some ("10.0.0.2".toList, "00:11:22:33:44:55".toList) := by
    decide +kernel
  have hempty : (authAndDeauth.run obligingMachine {}
      (removalBetween.take (3 + 1))).world.clients.firstclient = [] := by
    decide +kernel
  obtain ⟨client, hfind, -⟩ := (h 0 _ _ (positiveAnswer_eq hanswered)).2 3
    ⟨⟨_, rfl, rfl⟩, authenticating_eq hacting⟩
  rw [clientListFind, hempty] at hfind
  cases hfind

end WifiCat.Analysis
