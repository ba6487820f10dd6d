import WifiCat.Analysis.TimeoutSweep

/-!
# Longer timeouts

A client goes when one of its two times has passed: `clienttimeout` check intervals since it
was last heard of, or `clientforceout` since it came.  The products are `int`s that wrap, so a
larger timeout may stand for an earlier time: it keeps every client that a smaller one keeps if
and only if the wrapped products are in that order (`longer_timeouts_iff`).
-/

set_option autoImplicit false

namespace WifiCat.Analysis

open CommandProgram Prog

/-- The two timeouts.
SOURCE: firewall.c:171, 181 -/
inductive Timeout
  | idle | force
deriving DecidableEq

/-- The configuration with another value of a timeout. -/
def Timeout.set (t : Timeout) (value : ℤ) (config : Config) : Config :=
  match t with
  | .idle => { config with clienttimeout := value }
  | .force => { config with clientforceout := value }

/-- The seconds of a timeout.
SOURCE: firewall.c:171, 181 -/
def Timeout.seconds (t : Timeout) (config : Config) : ℤ :=
  match t with
  | .idle => int32 (config.checkinterval * config.clienttimeout)
  | .force => int32 (config.checkinterval * config.clientforceout)

/-- The time of a client from which a timeout counts.
SOURCE: firewall.c:168-169 -/
def Timeout.since (t : Timeout) (client : Client) : ℤ :=
  match t with
  | .idle => client.counters.lastUpdated
  | .force => client.addedTime

theorem seconds_set (t : Timeout) (value : ℤ) (config : Config) :
    t.seconds (t.set value config) = int32 (config.checkinterval * value) := by
  cases t <;> rfl

theorem seconds_set_of_ne {t t' : Timeout} (h : t' ≠ t) (value : ℤ) (config : Config) :
    t'.seconds (t.set value config) = t'.seconds config := by
  cases t <;> cases t' <;> first | rfl | exact absurd rfl h

theorem timedOut_iff {now : ℤ} {w : World} {client : Client} :
    timedOut now w client ↔ ∃ t : Timeout, t.since client + t.seconds w.config ≤ now := by
  constructor
  · rintro (hidle | hforce)
    · exact ⟨.idle, hidle⟩
    · exact ⟨.force, hforce⟩
  · rintro ⟨t, ht⟩
    cases t with
    | idle => exact Or.inl ht
    | force => exact Or.inr ht

/-! ## What is kept -/

section Kept

variable {σ : Type} (h : (e : Event) → σ → e.Answer × σ) (s : σ)

/-- The clients that a sweep keeps, with one reading of the clock.
SOURCE: firewall.c:143-199 -/
def keptClients (input : RefreshInput) (now : ℤ) (w : World) : List Client :=
  (run h (fwRefreshClientList { input with now := fun _ => now } w) s).1.clients.firstclient

/-- INTERNAL: what is kept are the clients that have not timed out; all are kept when the
counters could not be read.
SOURCE: firewall.c:143-199 -/
theorem mem_keptClients {maxclients : ℤ} {w : World} (hinv : ClientListInv maxclients w.clients)
    (input : RefreshInput) (now : ℤ) (c : Client) :
    c ∈ keptClients h s input now w ↔
      c ∈ (iptablesFwCountersUpdate input w.clients).2.firstclient ∧
        ((iptablesFwCountersUpdate input w.clients).1 = true → ¬timedOut now w c) := by
  set input' : RefreshInput := { input with now := fun _ => now } with hinput
  have hsame : iptablesFwCountersUpdate input' w.clients = iptablesFwCountersUpdate input w.clients :=
    rfl
  rw [← hsame, keptClients, ← hinput]
  set counters := iptablesFwCountersUpdate input' w.clients with hcounters
  have hcl : ClientListInv maxclients counters.2 := countersUpdate_inv hinv input'
  unfold fwRefreshClientList
  rw [← hcounters]
  cases hread : counters.1 with
  | false => simp [hread]
  | true =>
    classical
    have hnd : counters.2.firstclient.Nodup := List.Nodup.of_map _ hcl.addr_nodup
    set out : Client → Bool := fun c => decide (timedOut now w c) with hout
    have hclock : ∀ n, input'.now n = now := fun _ => rfl
    have htimes : ∀ c, out c = true ↔ timedOut now { w with clients := counters.2 } c := by
      intro c
      rw [hout, decide_eq_true_iff]
      rfl
    have hwalk := refreshClient_foldlM hclock htimes 0 hcl (fun c hc => hc) hnd
    have hdeleted := clientListDelete_foldl hcl
      (fun c (hc : c ∈ counters.2.firstclient.filter out) => List.mem_of_mem_filter hc)
      (hnd.filter _)
    dsimp only
    rw [if_neg (by simp [hread]), hwalk, run_map]
    dsimp only
    rw [hdeleted]
    simp only [keepOnly, List.mem_filter, hout, decide_eq_true_eq, true_implies]
    exact and_congr_right fun hc => by simp [hc]

end Kept

/-- Whoever is kept with the one value of a timeout is kept with the other. -/
def KeepsAsMany (t : Timeout) (checkinterval a b : ℤ) : Prop :=
  ∀ {σ : Type} (h : (e : Event) → σ → e.Answer × σ) (s : σ) (input : RefreshInput) (now : ℤ)
    (w : World) (maxclients : ℤ), ClientListInv maxclients w.clients →
    w.config.checkinterval = checkinterval →
    ∀ c ∈ keptClients h s input now { w with config := t.set a w.config },
      c ∈ keptClients h s input now { w with config := t.set b w.config }

/-- A machine on which every command succeeds, and without rules. -/
def idleMachine : (e : Event) → Unit → e.Answer × Unit
  | .execute _, s => (0, s)
  | .logStatus _ _, s => ((), s)
  | .list _ _, s => ([], s)

/-- Times of a client: zero for the one timeout, and the other one is a second from its end. -/
def barelyForced (t : Timeout) (checkinterval now : ℤ) (t' : Timeout) : ℤ :=
  if t' = t then 0 else now + 1 - t'.seconds { checkinterval := checkinterval }

/-- A client by the times from which the two timeouts count. -/
def timedClient (since : Timeout → ℤ) : Client :=
  { listedClient 0 with addedTime := since .force, counters := { lastUpdated := since .idle } }

theorem since_timedClient (since : Timeout → ℤ) (t : Timeout) :
    t.since (timedClient since) = since t := by
  cases t <;> rfl

/-- A daemon with that client. -/
def timedWorld (checkinterval : ℤ) (since : Timeout → ℤ) : World :=
  { oneClientWorld 0 with
    config := { checkinterval := checkinterval }
    clients :=
      { firstclient := [timedClient since], clientArr := [some 1], clientCount := 1 } }

theorem timedWorld_inv (checkinterval : ℤ) (since : Timeout → ℤ) :
    ClientListInv 1 (timedWorld checkinterval since).clients where
  count := rfl
  count_le := le_rfl
  arr_length := rfl
  slot_of_listed := by
    intro c hc
    rw [List.mem_singleton.mp hc]
    rfl
  listed_of_slot := by
    intro i a h
    match i with
    | 0 => exact ⟨timedClient since, List.mem_singleton_self _, by cases h; rfl, rfl⟩
    | i + 1 => cases h
  addr_nodup := List.nodup_singleton _
  key_nodup := List.nodup_singleton _
  ip_checked := by
    intro c hc
    rw [List.mem_singleton.mp hc]
    exact (by decide : checkIpFormat (listedClient 0).ip = true)

/-- INTERNAL: the one client of that daemon is kept until a timeout has passed. -/
theorem mem_keptClients_timed (t : Timeout) (checkinterval value now : ℤ) (since : Timeout → ℤ) :
    timedClient since ∈ keptClients idleMachine () quietRefresh now
        { timedWorld checkinterval since with
          config := t.set value (timedWorld checkinterval since).config } ↔
      ∀ t' : Timeout, now < since t' + t'.seconds (t.set value { checkinterval := checkinterval }) := by
  rw [mem_keptClients idleMachine () (w := { timedWorld checkinterval since with
    config := t.set value (timedWorld checkinterval since).config })
    (timedWorld_inv checkinterval since), timedOut_iff]
  simp only [not_exists, not_le, since_timedClient]
  exact ⟨fun hkept => hkept.2 rfl, fun hnot => ⟨List.mem_singleton_self _, fun _ => hnot⟩⟩

/-- INTERNAL: where the larger value is the shorter time, a client goes that stays with the
smaller one. -/
theorem not_keepsAsMany {t : Timeout} {checkinterval a b : ℤ}
    (hlt : int32 (checkinterval * b) < int32 (checkinterval * a)) :
    ¬KeepsAsMany t checkinterval a b := by
  intro hkeeps
  set now := int32 (checkinterval * b) with hnow
  set since := barelyForced t checkinterval now with hsince
  have hself : since t = 0 := if_pos rfl
  have hothers : ∀ t', t' ≠ t → since t' = now + 1 - t'.seconds { checkinterval := checkinterval } :=
    fun t' ht' => if_neg ht'
  have hseconds : ∀ value, t.seconds (t.set value { checkinterval := checkinterval }) =
      int32 (checkinterval * value) := fun value => seconds_set t value _
  have hkept := hkeeps idleMachine () quietRefresh now (timedWorld checkinterval since) 1
    (timedWorld_inv checkinterval since) rfl (timedClient since)
    ((mem_keptClients_timed t checkinterval a now since).mpr fun t' => ?_)
  · have hself' := (mem_keptClients_timed t checkinterval b now since).mp hkept t
    rw [hself, hseconds] at hself'
    omega
  · by_cases heq : t' = t
    · rw [heq, hself, hseconds]
      omega
    · rw [hothers t' heq, seconds_set_of_ne heq]
      omega

/-- **A longer timeout keeps as many clients** if and only if it is longer when it is computed.
SOURCE: firewall.c:143-199 -/
theorem longer_timeouts_iff (t : Timeout) (checkinterval a b : ℤ) :
    KeepsAsMany t checkinterval a b ↔ int32 (checkinterval * a) ≤ int32 (checkinterval * b) := by
  constructor
  · intro hkeeps
    by_contra hlt
    exact not_keepsAsMany (not_le.mp hlt) hkeeps
  · intro hle σ h s input now w maxclients hinv hinterval c hc
    rw [mem_keptClients h s (w := { w with config := t.set a w.config }) hinv] at hc
    rw [mem_keptClients h s (w := { w with config := t.set b w.config }) hinv]
    obtain ⟨hlisted, hkept⟩ := hc
    refine ⟨hlisted, fun hread htimed => hkept hread ?_⟩
    obtain ⟨t', ht'⟩ := timedOut_iff.mp htimed
    refine timedOut_iff.mpr ⟨t', ?_⟩
    by_cases heq : t' = t
    · subst heq
      rw [seconds_set, hinterval] at ht' ⊢
      omega
    · rw [seconds_set_of_ne heq] at ht' ⊢
      exact ht'

/-- With 35791395 intervals of a minute a client goes at once, with 10 it does not. -/
theorem longer_timeout_disconnects :
    ¬∀ (t : Timeout) (checkinterval a b : ℤ), a ≤ b → FitsInt checkinterval → FitsInt a → FitsInt b →
      KeepsAsMany t checkinterval a b := by
  intro hall
  have hlt : int32 (60 * 35791395) < int32 (60 * 10) := by decide
  exact not_keepsAsMany hlt (hall .idle 60 10 35791395 (by decide) (by unfold FitsInt; decide)
    (by unfold FitsInt; decide) (by unfold FitsInt; decide))

end WifiCat.Analysis
