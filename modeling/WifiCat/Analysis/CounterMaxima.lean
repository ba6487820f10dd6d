import WifiCat.Analysis.TrafficCredit

/-!
# The counters are running maxima

A call of `iptables_fw_counters_update` reads the lines of two listings one by one, and takes
the lock of the client list for each; between two lines the list may change.  `CounterEvent`
is one line or one such change.  In every run of them a listed client's counters are the
largest counts read for it since it was added, and `last_updated` is the time of the last
reading that raised `outgoing` (`counters_running_maxima`).  The histories stay zero, which is
why the subtraction that guards an update is harmless.
-/

set_option autoImplicit false

namespace WifiCat.Analysis

open Scan

/-! ## Runs -/

/-- The chain a line is read from: `ndsOUT` or `ndsINC`. -/
inductive Direction
  | outgoing | incoming
deriving DecidableEq

/-- What the lines of a chain are read for. -/
def Direction.account : Direction → Account
  | .outgoing => outgoingAccount
  | .incoming => incomingAccount

/-- A line is read at a time, or the list changes. -/
inductive CounterEvent
  | read (d : Direction) (now : ℤ) (line : CounterLine)
  | list (call : ListCall)

/-- One event.
SOURCE: fw_iptables.c:909-926, 948-964 -/
def CounterEvent.run (maxclients : ℤ) (cl : ClientList) : CounterEvent → ClientList
  | .read .outgoing now line => updateOutgoing now line cl
  | .read .incoming _ line => updateIncoming line cl
  | .list call => call.run maxclients cl

/-- The client list after events on a fresh list. -/
def counterRun (maxclients : ℤ) (events : List CounterEvent) : ClientList :=
  events.foldl (CounterEvent.run maxclients) (clientListInit maxclients)

/-- The lines a call of `iptables_fw_counters_update` reads: those of `ndsOUT`, then those of
`ndsINC`; none where `popen` failed.
SOURCE: fw_iptables.c:880-970 -/
def updateEvents (input : RefreshInput) : List CounterEvent :=
  match input.outgoing with
  | none => []
  | some lines =>
    (lines.zipIdx.map fun l => .read .outgoing (input.readAt l.2) l.1) ++
      (input.incoming.getD []).map (.read .incoming 0)

/-! ## Readings -/

/-- The time and count that an event reads for the node at an address: the line's target is
the one of the chain, its address passes the sanity check, and the node is the first one with
this address. -/
def CounterEvent.reading (d : Direction) (addr : ℕ) (cl : ClientList) :
    CounterEvent → Option (ℤ × BitVec 64)
  | .read d' now line =>
    if d' = d ∧ line.target = d.account.target ∧ inetAton line.ip ∧
        (clientListFindByIp line.ip cl).map Client.addr = some addr then
      some (now, line.counter)
    else none
  | .list _ => none

/-- What a run reads of one chain for the node at an address. -/
def readings (maxclients : ℤ) (d : Direction) (addr : ℕ) :
    ClientList → List CounterEvent → List (ℤ × BitVec 64)
  | _, [] => []
  | cl, e :: es => (e.reading d addr cl).toList ++ readings maxclients d addr (e.run maxclients cl) es

/-- The count of a reading as a number. -/
def readingCount (r : ℤ × BitVec 64) : ℕ := r.2.toNat

/-- The counters of a client are the maxima of the readings of the two chains, no history is
above its counter, and `last_updated` is the time of the last reading that raised `outgoing`,
or the time the client was added. -/
structure RunningMaxima (outs ins : List (ℤ × BitVec 64)) (c : Client) : Prop where
  outgoing : c.counters.outgoing.toNat = Meter.shown (fun _ => True) readingCount 0 outs
  incoming : c.counters.incoming.toNat = Meter.shown (fun _ => True) readingCount 0 ins
  outgoing_history : c.counters.outgoingHistory ≤ c.counters.outgoing
  incoming_history : c.counters.incomingHistory ≤ c.counters.incoming
  lastUpdated : ∃ last, Meter.LastRaise (fun _ => True) readingCount 0 outs last ∧
    c.counters.lastUpdated = (last.map Prod.fst).getD c.addedTime

/-- A client was appended by the call of `client_list_add_client` between two runs of events,
of which the second one does not delete it. -/
structure ListedSince (maxclients : ℤ) (before : List CounterEvent) (env : Arrival)
    (after : List CounterEvent) (c : Client) : Prop where
  appended : ∃ node, (clientListAddClient maxclients env c.ip (counterRun maxclients before)).1 =
    some node ∧ node.addr = c.addr
  unlisted : c.addr ∉ (counterRun maxclients before).firstclient.map Client.addr
  addedTime : c.addedTime = env.time
  undeleted : CounterEvent.list (.delete (some c.addr)) ∉ after

variable {maxclients : ℤ} {cl : ClientList}

theorem readings_append_singleton (d : Direction) (addr : ℕ) (es : List CounterEvent)
    (e : CounterEvent) : readings maxclients d addr cl (es ++ [e]) =
      readings maxclients d addr cl es ++
        (e.reading d addr (es.foldl (CounterEvent.run maxclients) cl)).toList := by
  induction es generalizing cl with
  | nil => simp [readings]
  | cons e' es ih => simp [readings, ih]

theorem counterRun_append_singleton (events : List CounterEvent) (e : CounterEvent) :
    counterRun maxclients (events ++ [e]) = e.run maxclients (counterRun maxclients events) := by
  simp [counterRun]

/-- INTERNAL: a call is the run of the lines it reads.
SOURCE: fw_iptables.c:880-970 -/
theorem countersUpdate_eq_run (input : RefreshInput) (cl : ClientList) :
    (iptablesFwCountersUpdate input cl).2 =
      (updateEvents input).foldl (CounterEvent.run maxclients) cl := by
  unfold iptablesFwCountersUpdate updateEvents
  cases input.outgoing with
  | none => rfl
  | some lines =>
    simp only [List.foldl_append, List.foldl_map, CounterEvent.run]
    cases input.incoming <;> rfl

/-! ## One line -/

/-- Counters after a reading. -/
def Account.take (a : Account) (r : Option (ℤ × BitVec 64)) (k : Counters) : Counters :=
  match r with
  | none => k
  | some r => if a.shows k < r.2 then a.put r.1 r.2 k else k

/-- INTERNAL: every event is an update of its account, or a call.
SOURCE: fw_iptables.c:909-926, 948-964 -/
theorem run_read (d : Direction) (now : ℤ) (line : CounterLine) :
    (CounterEvent.read d now line).run maxclients cl = d.account.update now line cl := by
  cases d <;> rfl

/-- INTERNAL: **one line**: each client takes what is read for it.
SOURCE: fw_iptables.c:909-926, 948-964 -/
theorem update_firstclient (d : Direction) (now : ℤ) (line : CounterLine)
    (hnodup : (cl.firstclient.map Client.addr).Nodup)
    (hhistory : ∀ c ∈ cl.firstclient, d.account.history c.counters = 0) :
    (d.account.update now line cl).firstclient = cl.firstclient.map fun c =>
      { c with counters :=
        d.account.take ((CounterEvent.read d now line).reading d c.addr cl) c.counters } := by
  have hsame : ∀ f : Client → Counters, (∀ c ∈ cl.firstclient, f c = c.counters) →
      cl.firstclient = cl.firstclient.map fun c => { c with counters := f c } := by
    intro f hf
    nth_rewrite 1 [← List.map_id cl.firstclient]
    refine List.map_congr_left fun c hc => ?_
    rw [hf c hc]
    rfl
  unfold Account.update
  split
  · next hline =>
    simp only [Bool.and_eq_true, decide_eq_true_eq] at hline
    cases hfind : clientListFindByIp line.ip cl with
    | none =>
      refine hsame _ fun c _ => ?_
      simp [CounterEvent.reading, hfind, Account.take]
    | some p1 =>
      have hp1 : p1 ∈ cl.firstclient := List.mem_of_find?_eq_some hfind
      have hread : ∀ c : Client, (CounterEvent.read d now line).reading d c.addr cl =
          if p1.addr = c.addr then some (now, line.counter) else none := by
        intro c
        simp [CounterEvent.reading, hfind, hline]
      have hnode : ∀ c ∈ cl.firstclient, p1.addr = c.addr → p1 = c := fun c hc h =>
        List.inj_on_of_nodup_map hnodup hp1 hc h
      simp only [hhistory p1 hp1, sub_zero, hread]
      split
      · next hmore =>
        refine List.map_congr_left fun c hc => ?_
        by_cases h : p1.addr = c.addr
        · obtain rfl := hnode c hc h
          simp [Account.take, hmore, hhistory p1 hp1]
        · simp [Account.take, h, Ne.symm h]
      · next hmore =>
        refine hsame _ fun c hc => ?_
        by_cases h : p1.addr = c.addr
        · obtain rfl := hnode c hc h
          simp [Account.take, hmore]
        · simp [Account.take, h]
  · next hline =>
    refine hsame _ fun c _ => ?_
    have hnone : (CounterEvent.read d now line).reading d c.addr cl = none := by
      simp only [Bool.and_eq_true, decide_eq_true_eq, not_and] at hline
      simp only [CounterEvent.reading, true_and]
      exact if_neg fun h => hline h.1 h.2.1
    rw [hnone, Account.take]

/-- INTERNAL: what a line of one chain reads of the other. -/
theorem reading_other {d d' : Direction} (h : d' ≠ d) (addr : ℕ) (now : ℤ) (line : CounterLine) :
    (CounterEvent.read d' now line).reading d addr cl = none := by
  simp [CounterEvent.reading, h]

/-- INTERNAL: a counter that shows the maximum of the readings shows it after one more. -/
theorem Account.take_shows (a : Account) {rs : List (ℤ × BitVec 64)} {k : Counters}
    (h : (a.shows k).toNat = Meter.shown (fun _ => True) readingCount 0 rs)
    (r : Option (ℤ × BitVec 64)) : (a.shows (a.take r k)).toNat =
      Meter.shown (fun _ => True) readingCount 0 (rs ++ r.toList) := by
  cases r with
  | none => simpa [Account.take] using h
  | some r =>
    rw [Option.toList_some, Meter.shown_append_singleton, if_pos trivial, ← h, Account.take]
    split
    · next hlt =>
      rw [a.shows_put]
      exact (max_eq_right (BitVec.lt_def.mp hlt).le).symm
    · next hge => exact (max_eq_left (not_lt.mp fun hlt => hge (BitVec.lt_def.mpr hlt))).symm

/-- INTERNAL: the time of the last reading that raised `outgoing`, after one more.
SOURCE: fw_iptables.c:918-920 -/
theorem take_lastUpdated {rs : List (ℤ × BitVec 64)} {k : Counters} {t : ℤ}
    (hshows : k.outgoing.toNat = Meter.shown (fun _ => True) readingCount 0 rs)
    (h : ∃ last, Meter.LastRaise (fun _ => True) readingCount 0 rs last ∧
      k.lastUpdated = (last.map Prod.fst).getD t) (r : Option (ℤ × BitVec 64)) :
    ∃ last, Meter.LastRaise (fun _ => True) readingCount 0 (rs ++ r.toList) last ∧
      (outgoingAccount.take r k).lastUpdated = (last.map Prod.fst).getD t := by
  obtain ⟨last, hlast, htime⟩ := h
  cases r with
  | none => exact ⟨last, by simpa using hlast, htime⟩
  | some r =>
    refine ⟨_, hlast.append_singleton r, ?_⟩
    rw [← hshows, Account.take]
    by_cases hlt : outgoingAccount.shows k < r.2
    · rw [if_pos hlt, if_pos ⟨trivial, BitVec.lt_def.mp hlt⟩]
      rfl
    · rw [if_neg hlt, if_neg fun hraise => hlt (BitVec.lt_def.mpr hraise.2)]
      exact htime

/-! ## Runs -/

/-- What holds of a client that was listed for some readings. -/
structure TakenSince (outs ins : List (ℤ × BitVec 64)) (c : Client) : Prop where
  maxima : RunningMaxima outs ins c
  outgoing_zero : c.counters.outgoingHistory = 0
  incoming_zero : c.counters.incomingHistory = 0

/-- INTERNAL: `ndsOUT` has its own counter and time. -/
theorem outgoing_take (r : Option (ℤ × BitVec 64)) (k : Counters) :
    (outgoingAccount.take r k).incoming = k.incoming ∧
    (outgoingAccount.take r k).outgoingHistory = k.outgoingHistory ∧
    (outgoingAccount.take r k).incomingHistory = k.incomingHistory := by
  cases r with
  | none => exact ⟨rfl, rfl, rfl⟩
  | some r =>
    rw [Account.take]
    split <;> exact ⟨rfl, rfl, rfl⟩

/-- INTERNAL: `ndsINC` has its own counter, and leaves the time alone. -/
theorem incoming_take (r : Option (ℤ × BitVec 64)) (k : Counters) :
    (incomingAccount.take r k).outgoing = k.outgoing ∧
    (incomingAccount.take r k).lastUpdated = k.lastUpdated ∧
    (incomingAccount.take r k).outgoingHistory = k.outgoingHistory ∧
    (incomingAccount.take r k).incomingHistory = k.incomingHistory := by
  cases r with
  | none => exact ⟨rfl, rfl, rfl, rfl⟩
  | some r =>
    rw [Account.take]
    split <;> exact ⟨rfl, rfl, rfl, rfl⟩

/-- INTERNAL: **one line keeps the maxima** of a client that takes what is read for it.
SOURCE: fw_iptables.c:909-926, 948-964 -/
theorem TakenSince.read {outs ins : List (ℤ × BitVec 64)} {c : Client}
    (h : TakenSince outs ins c) (d : Direction) (now : ℤ) (line : CounterLine) :
    TakenSince (outs ++ ((CounterEvent.read d now line).reading .outgoing c.addr cl).toList)
      (ins ++ ((CounterEvent.read d now line).reading .incoming c.addr cl).toList)
      { c with counters :=
        d.account.take ((CounterEvent.read d now line).reading d c.addr cl) c.counters } := by
  obtain ⟨⟨hout, hin, -, -, htime⟩, hzero, hzero'⟩ := h
  have hle : ∀ x y : BitVec 64, x = 0 → x ≤ y := by
    rintro x y rfl
    simp [BitVec.le_def]
  cases d with
  | outgoing =>
    rw [reading_other (d := .incoming) (by decide), Option.toList_none, List.append_nil]
    obtain ⟨hincoming, hhistory, hhistory'⟩ := outgoing_take
      ((CounterEvent.read .outgoing now line).reading .outgoing c.addr cl) c.counters
    have hzeroOut := hhistory.trans hzero
    have hzeroIn := hhistory'.trans hzero'
    refine ⟨⟨outgoingAccount.take_shows hout _, ?_, ?_, ?_, take_lastUpdated hout htime _⟩,
      hzeroOut, hzeroIn⟩
    · exact (congrArg BitVec.toNat hincoming).trans hin
    · exact hle _ _ hzeroOut
    · exact hle _ _ hzeroIn
  | incoming =>
    rw [reading_other (d := .outgoing) (by decide), Option.toList_none, List.append_nil]
    obtain ⟨houtgoing, htaken, hhistory, hhistory'⟩ := incoming_take
      ((CounterEvent.read .incoming now line).reading .incoming c.addr cl) c.counters
    have hzeroOut := hhistory.trans hzero
    have hzeroIn := hhistory'.trans hzero'
    obtain ⟨last, hlast, hupdated⟩ := htime
    refine ⟨⟨?_, incomingAccount.take_shows hin _, ?_, ?_, last, hlast, htaken.trans hupdated⟩,
      hzeroOut, hzeroIn⟩
    · exact (congrArg BitVec.toNat houtgoing).trans hout
    · exact hle _ _ hzeroOut
    · exact hle _ _ hzeroIn

/-- INTERNAL: the list invariant holds in every run.
SOURCE: client_list.c:84-368 -/
theorem counterRun_inv (maxclients : ℤ) (events : List CounterEvent) :
    ClientListInv (max maxclients 0) (counterRun maxclients events) := by
  refine Run.invariant_foldl (I := ClientListInv (max maxclients 0)) ?_ events
    (clientListInit_inv maxclients)
  intro cl e hinv
  have hcounters : ∀ cl a (counters : Client → Counters),
      (∀ c, (counters c).incomingHistory = c.counters.incomingHistory ∧
        (counters c).outgoingHistory = c.counters.outgoingHistory) →
      ClientListInv (max maxclients 0) cl →
      ClientListInv (max maxclients 0)
        (cl.modify a fun c => { c with counters := counters c }) := by
    intro cl a counters _ hinv
    refine hinv.map fun c => ?_
    split <;> exact ⟨rfl, rfl, rfl⟩
  cases e with
  | read d now line =>
    cases d with
    | outgoing => exact updateOutgoing_keeps hcounters now line hinv
    | incoming => exact updateIncoming_keeps hcounters line hinv
  | list call =>
    cases call with
    | add env ip =>
      have hcount : 0 ≤ cl.clientCount := by
        rw [hinv.count]
        exact Int.natCast_nonneg _
      change ClientListInv _ (clientListAddClient maxclients env ip cl).2
      rw [clientListAddClient_max hcount]
      exact client_list_add_client_inv hinv env ip
    | delete p => exact client_list_delete_inv hinv p

/-- A client's readings in a run that lists it, from the call that appended it. -/
def TakenInRun (maxclients : ℤ) (events : List CounterEvent) (c : Client) : Prop :=
  ∃ before env after, events = before ++ .list (.add env c.ip) :: after ∧
    ListedSince maxclients before env after c ∧
    TakenSince
      (readings maxclients .outgoing c.addr
        (counterRun maxclients (before ++ [.list (.add env c.ip)])) after)
      (readings maxclients .incoming c.addr
        (counterRun maxclients (before ++ [.list (.add env c.ip)])) after) c

/-- INTERNAL: one more event that does not change the client.
SOURCE: client_list.c:191-216, 336-368 -/
theorem TakenInRun.list {events : List CounterEvent} {c : Client}
    (h : TakenInRun maxclients events c) {call : ListCall}
    (hcall : CounterEvent.list call ≠ .list (.delete (some c.addr))) :
    TakenInRun maxclients (events ++ [.list call]) c := by
  obtain ⟨before, env, after, rfl, hsince, htaken⟩ := h
  refine ⟨before, env, after ++ [.list call], by simp, ?_, ?_⟩
  · refine ⟨hsince.appended, hsince.unlisted, hsince.addedTime, ?_⟩
    simpa using ⟨hsince.undeleted, fun heq => hcall (heq ▸ rfl)⟩
  · rw [readings_append_singleton, readings_append_singleton]
    simpa [CounterEvent.reading] using htaken

/-- INTERNAL: one more line, of which the client takes what is read for it.
SOURCE: fw_iptables.c:909-926, 948-964 -/
theorem TakenInRun.read {events : List CounterEvent} {c : Client}
    (h : TakenInRun maxclients events c) (d : Direction) (now : ℤ) (line : CounterLine) :
    TakenInRun maxclients (events ++ [.read d now line])
      { c with counters := d.account.take ((CounterEvent.read d now line).reading d c.addr
        (counterRun maxclients events)) c.counters } := by
  obtain ⟨before, env, after, rfl, hsince, htaken⟩ := h
  refine ⟨before, env, after ++ [.read d now line], by simp, ?_, ?_⟩
  · refine ⟨hsince.appended, hsince.unlisted, hsince.addedTime, ?_⟩
    simpa using hsince.undeleted
  · have hstate : after.foldl (CounterEvent.run maxclients)
        (counterRun maxclients (before ++ [.list (.add env c.ip)])) =
        counterRun maxclients (before ++ .list (.add env c.ip) :: after) := by
      simp [counterRun]
    simp only [readings_append_singleton, hstate]
    exact htaken.read d now line

/-- INTERNAL: a client that was just appended has taken nothing.
SOURCE: client_list.c:133-145 -/
theorem takenInRun_appended {events : List CounterEvent} {env : Arrival} {ip : Text} {c : Client}
    (hadd : (clientListAddClient maxclients env ip (counterRun maxclients events)).1 = some c)
    (hfresh : c.addr ∉ (counterRun maxclients events).firstclient.map Client.addr)
    (hip : c.ip = ip) (htime : c.addedTime = env.time)
    (hcounters : c.counters = { lastUpdated := env.time }) :
    TakenInRun maxclients (events ++ [.list (.add env ip)]) c := by
  subst hip
  refine ⟨events, env, [], rfl, ⟨⟨c, hadd, rfl⟩, hfresh, htime, by simp⟩, ?_, ?_, ?_⟩
  · refine ⟨?_, ?_, ?_, ?_, none, by simp [Meter.LastRaise, readings], ?_⟩
    · simp [hcounters, readings]
    · simp [hcounters, readings]
    · simp [hcounters]
    · simp [hcounters]
    · simp [hcounters, htime]
  · rw [hcounters]
  · rw [hcounters]

/-- INTERNAL: the counters and the time a client is appended with.
SOURCE: client_list.c:139-145 -/
theorem clientListAppend_counters {env : Arrival} {ip mac : Text} {token : Option Text}
    {cl : ClientList} {c : Client}
    (h : (clientListAppend maxclients env ip mac token cl).1 = some c) :
    c.addedTime = env.time ∧ c.counters = { lastUpdated := env.time } := by
  unfold clientListAppend at h
  split at h
  · cases h
  · cases h
    exact ⟨rfl, rfl⟩

/-- INTERNAL: **every listed client has the maxima of its readings**, by induction on the
events.
SOURCE: fw_iptables.c:880-970, client_list.c:84-368 -/
theorem takenInRun_of_mem (events : List CounterEvent) {c : Client}
    (hc : c ∈ (counterRun maxclients events).firstclient) : TakenInRun maxclients events c := by
  induction events using List.reverseRecOn generalizing c with
  | nil => cases hc
  | append_singleton events e ih =>
    have hinv := counterRun_inv maxclients events
    rw [counterRun_append_singleton] at hc
    cases e with
    | read d now line =>
      have hzero : ∀ c ∈ (counterRun maxclients events).firstclient,
          d.account.history c.counters = 0 := by
        intro c hc
        obtain ⟨_, _, _, _, _, htaken⟩ := ih hc
        cases d with
        | outgoing => exact htaken.outgoing_zero
        | incoming => exact htaken.incoming_zero
      rw [run_read, update_firstclient d now line hinv.addr_nodup hzero] at hc
      obtain ⟨c₀, hc₀, rfl⟩ := List.mem_map.mp hc
      exact (ih hc₀).read d now line
    | list call =>
      cases call with
      | add env ip =>
        change c ∈ (clientListAddClient maxclients env ip _).2.firstclient at hc
        rcases clientListAddClient_cases maxclients env ip (counterRun maxclients events) with
          ⟨h, -⟩ | ⟨mac, d, -, -, -, h⟩ | ⟨mac, token, -, -, -, h⟩
        · rw [h] at hc
          exact (ih hc).list (by rintro ⟨⟩)
        · rw [h] at hc
          exact (ih hc).list (by rintro ⟨⟩)
        · rcases clientListAppend_cases maxclients env ip mac token
              (counterRun maxclients events) with
            ⟨-, hfull⟩ | ⟨-, d, hip, -, -, -, hfresh, happend⟩
          · rw [h, hfull] at hc
            exact (ih hc).list (by rintro ⟨⟩)
          · rw [h, happend] at hc
            rcases List.mem_append.mp hc with hc | hc
            · exact (ih hc).list (by rintro ⟨⟩)
            · obtain rfl := List.mem_singleton.mp hc
              have hadd : (clientListAppend maxclients env ip mac token
                  (counterRun maxclients events)).1 = some c := by rw [happend]
              obtain ⟨htime, hcounters⟩ := clientListAppend_counters hadd
              rw [← h] at hadd
              exact takenInRun_appended hadd hfresh hip htime hcounters
      | delete p =>
        change c ∈ (clientListDelete p _).firstclient at hc
        rcases clientListDelete_cases hinv p with ⟨h, hnot⟩ | ⟨d, l₁, l₂, rfl, hl, h⟩
        · rw [h] at hc
          refine (ih hc).list ?_
          rintro ⟨⟩
          exact hnot c hc rfl
        · rw [h] at hc
          have hold : c ∈ (counterRun maxclients events).firstclient := by
            rw [hl]
            simp only [List.mem_append, List.mem_cons] at hc ⊢
            tauto
          refine (ih hold).list fun heq => ?_
          have haddr : d.addr = c.addr := by simpa using heq
          -- the node that was deleted is the only one with its address
          have hnodup := hinv.addr_nodup
          rw [hl, List.map_append, List.map_cons, List.nodup_middle, List.nodup_cons,
            ← List.map_append] at hnodup
          exact hnodup.1 (haddr ▸ List.mem_map_of_mem hc)

/-- INTERNAL: `inet_aton` reads what `inet_ntoa` prints. -/
theorem inetAton_inetNtoa (a : InAddr) : inetAton (inetNtoa a) = true := by
  have hpart : ∀ n : Fin 256, inetAtonPart (Nat.toDigits 10 n) = some n.val ∧
      '.' ∉ Nat.toDigits 10 n := by
    decide +kernel
  obtain ⟨a₁, a₂, a₃, a₄⟩ := a
  obtain ⟨h₁, hdot₁⟩ := hpart a₁
  obtain ⟨h₂, hdot₂⟩ := hpart a₂
  obtain ⟨h₃, hdot₃⟩ := hpart a₃
  obtain ⟨h₄, hdot₄⟩ := hpart a₄
  unfold inetAton inetNtoa
  simp only [List.append_assoc, List.cons_append]
  rw [fields_append_sep hdot₁, fields_append_sep hdot₂, fields_append_sep hdot₃,
    fields_of_not_mem hdot₄]
  simp [h₁, h₂, h₃, h₄]

/-- **Client counters are running maxima**: a call of `iptables_fw_counters_update` is the run
of the lines it reads, and in every run of lines and list changes each listed client has a call
that appended it and was not followed by its deletion, and its counters are the maxima of what
was read for it since.  A client whose address is a dotted quad fails no sanity check.
SOURCE: fw_iptables.c:880-970, client_list.c:84-368 -/
theorem counters_running_maxima (maxclients : ℤ) :
    (∀ input cl, (iptablesFwCountersUpdate input cl).2 =
      (updateEvents input).foldl (CounterEvent.run maxclients) cl) ∧
    (∀ events, ∀ c ∈ (counterRun maxclients events).firstclient, ∃ before env after,
      events = before ++ .list (.add env c.ip) :: after ∧
      ListedSince maxclients before env after c ∧
      RunningMaxima
        (readings maxclients .outgoing c.addr
          (counterRun maxclients (before ++ [.list (.add env c.ip)])) after)
        (readings maxclients .incoming c.addr
          (counterRun maxclients (before ++ [.list (.add env c.ip)])) after) c) ∧
    (∀ a, inetAton (inetNtoa a) = true) := by
  refine ⟨fun input cl => countersUpdate_eq_run input cl, ?_, inetAton_inetNtoa⟩
  intro events c hc
  obtain ⟨before, env, after, hevents, hsince, htaken⟩ := takenInRun_of_mem events hc
  exact ⟨before, env, after, hevents, hsince, htaken.maxima⟩

end WifiCat.Analysis
