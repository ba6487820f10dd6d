import WifiCat.Model.ClientList

/-!
# The client list keeps its three representations together

`ClientListInv` says what holds of the list, the slot array and the counter between two
calls: the counter is the length of the list, every listed client owns the slot it
thinks it owns, every occupied slot is owned by a listed client, and no two clients
share a node or an (IP, MAC) pair.  `client_list_append_inv` and `client_list_delete_inv`
are the step lemmas; the pigeonhole argument that the slot search ends inside the array
is `slot_search_lt`.
-/

set_option autoImplicit false

namespace WifiCat.Analysis

open Scan

/-- The pair that identifies a client. -/
def clientKey (c : Client) : Text × Text := (c.ip, c.mac)

/-- What holds of the client list between two calls, for a list of `maxclients` slots. -/
structure ClientListInv (maxclients : ℤ) (cl : ClientList) : Prop where
  count : cl.clientCount = cl.firstclient.length
  count_le : cl.clientCount ≤ maxclients
  arr_length : cl.clientArr.length = maxclients.toNat
  slot_of_listed : ∀ c ∈ cl.firstclient, cl.clientArr.getD c.idx none = some c.addr
  listed_of_slot : ∀ i a, cl.clientArr.getD i none = some a →
    ∃ c ∈ cl.firstclient, c.addr = a ∧ c.idx = i
  addr_nodup : (cl.firstclient.map Client.addr).Nodup
  key_nodup : (cl.firstclient.map clientKey).Nodup
  ip_checked : ∀ c ∈ cl.firstclient, checkIpFormat c.ip = true

section Lists

/-- INTERNAL: unlinking an address no node has finds nothing. -/
theorem unlinkNode_eq_none {a : ℕ} {l : List Client} (h : ∀ c ∈ l, c.addr ≠ a) :
    unlinkNode a l = none := by
  induction l with
  | nil => rfl
  | cons c l ih =>
    simp only [unlinkNode]
    rw [if_neg (h c (by simp)), ih fun d hd => h d (List.mem_cons_of_mem _ hd)]
    rfl

/-- INTERNAL: a node that is unlinked is taken out of the place it has in the list.
SOURCE: client_list.c:349-366 -/
theorem unlinkNode_eq_some {a : ℕ} {l rest : List Client} {c : Client}
    (h : unlinkNode a l = some (c, rest)) :
    c.addr = a ∧ ∃ l₁ l₂, l = l₁ ++ c :: l₂ ∧ rest = l₁ ++ l₂ := by
  induction l generalizing rest with
  | nil => cases h
  | cons d l ih =>
    simp only [unlinkNode] at h
    split at h
    · next hd =>
      cases h
      exact ⟨hd, [], l, rfl, rfl⟩
    · obtain ⟨⟨e, r⟩, he, hr⟩ := Option.map_eq_some_iff.mp h
      cases hr
      obtain ⟨haddr, l₁, l₂, rfl, rfl⟩ := ih he
      exact ⟨haddr, d :: l₁, l₂, rfl, rfl⟩

/-- INTERNAL: unlinking the address of a member, when addresses are distinct, finds that
member. -/
theorem unlinkNode_of_mem {l : List Client} (hnd : (l.map Client.addr).Nodup) {c : Client}
    (hc : c ∈ l) : ∃ rest, unlinkNode c.addr l = some (c, rest) := by
  induction l with
  | nil => cases hc
  | cons d l ih =>
    simp only [List.map_cons, List.nodup_cons] at hnd
    rcases List.mem_cons.mp hc with rfl | hc
    · exact ⟨l, by simp [unlinkNode]⟩
    · have hne : d.addr ≠ c.addr := fun he => hnd.1 (he ▸ List.mem_map_of_mem hc)
      obtain ⟨rest, hrest⟩ := ih hnd.2 hc
      exact ⟨d :: rest, by simp [unlinkNode, hne, hrest]⟩

/-- INTERNAL: a client found by IP and MAC is listed and has them.
SOURCE: client_list.c:223-236 -/
theorem clientListFind_eq_some {ip mac : Text} {cl : ClientList} {c : Client}
    (h : clientListFind ip mac cl = some c) : c ∈ cl.firstclient ∧ c.ip = ip ∧ c.mac = mac := by
  unfold clientListFind at h
  have hp := List.find?_some h
  simp only [Bool.and_eq_true, beq_iff_eq] at hp
  exact ⟨List.mem_of_find?_eq_some h, hp.1, hp.2⟩

/-- INTERNAL: when no client is found by IP and MAC, no listed client has them.
SOURCE: client_list.c:223-236 -/
theorem clientListFind_eq_none {ip mac : Text} {cl : ClientList}
    (h : clientListFind ip mac cl = none) : (ip, mac) ∉ cl.firstclient.map clientKey := by
  unfold clientListFind at h
  rw [List.find?_eq_none] at h
  simp only [List.mem_map, clientKey, Prod.mk.injEq, not_exists, not_and]
  intro c hc hip hmac
  exact h c hc (by simp [hip, hmac])

/-- INTERNAL: distinct keys make the client with a given IP and MAC the one that is found.
SOURCE: client_list.c:223-236 -/
theorem clientListFind_of_mem {cl : ClientList} (hnd : (cl.firstclient.map clientKey).Nodup)
    {c : Client} (hc : c ∈ cl.firstclient) : clientListFind c.ip c.mac cl = some c := by
  cases h : clientListFind c.ip c.mac cl with
  | none =>
    exact absurd (List.mem_map_of_mem (f := clientKey) hc) (clientListFind_eq_none h)
  | some d =>
    obtain ⟨hd, hip, hmac⟩ := clientListFind_eq_some h
    have hkey : clientKey d = clientKey c := by simp [clientKey, hip, hmac]
    rw [List.inj_on_of_nodup_map hnd hd hc hkey]

/-- INTERNAL: the address of a new node is not the address of a live one.
SOURCE: client_list.c:133 -/
theorem mallocAddr_fresh (hint : ℕ) (live : List ℕ) : mallocAddr hint live ∉ live := by
  unfold mallocAddr
  split
  · intro hmem
    have := List.single_le_sum (fun _ _ => Nat.zero_le _) _ hmem
    omega
  · assumption

end Lists

section Slots

/-- INTERNAL: writing one slot. -/
theorem getD_set (arr : List (Option ℕ)) (i j : ℕ) (v : Option ℕ) :
    (arr.set i v).getD j none = if i = j ∧ i < arr.length then v else arr.getD j none := by
  simp only [List.getD_eq_getElem?_getD, List.getElem?_set]
  by_cases hij : i = j
  · subst hij
    by_cases hi : i < arr.length
    · simp [hi]
    · simp [hi]
  · simp [hij]

/-- INTERNAL: an occupied slot lies inside the array. -/
theorem lt_length_of_getD {arr : List (Option ℕ)} {i a : ℕ}
    (h : arr.getD i none = some a) : i < arr.length := by
  by_contra hge
  rw [List.getD_eq_getElem?_getD, List.getElem?_eq_none (Nat.le_of_not_lt hge)] at h
  cases h

variable {maxclients : ℤ} {cl : ClientList}

/-- INTERNAL: a listed client's slot lies inside the array.
SOURCE: client_list.c:149-150 -/
theorem ClientListInv.idx_lt (hinv : ClientListInv maxclients cl) {c : Client}
    (hc : c ∈ cl.firstclient) : c.idx < maxclients.toNat := by
  rw [← hinv.arr_length]
  exact lt_length_of_getD (hinv.slot_of_listed c hc)

/-- INTERNAL: two listed clients with one slot are the same client. -/
theorem ClientListInv.idx_inj (hinv : ClientListInv maxclients cl) {c d : Client}
    (hc : c ∈ cl.firstclient) (hd : d ∈ cl.firstclient) (h : c.idx = d.idx) : c = d := by
  have hcs := hinv.slot_of_listed c hc
  have hds := hinv.slot_of_listed d hd
  rw [h, hds, Option.some.injEq] at hcs
  exact List.inj_on_of_nodup_map hinv.addr_nodup hc hd hcs.symm

/-- INTERNAL: **the slot search ends inside the array** when the list is not full: the
occupied slots are the slots of the listed clients, which are fewer than the slots.
SOURCE: client_list.c:143-149 -/
theorem ClientListInv.slot_search_lt (hinv : ClientListInv maxclients cl)
    (hroom : cl.clientCount < maxclients) :
    Slots.firstFree cl.clientArr maxclients.toNat < maxclients.toNat := by
  refine Slots.firstFree_lt (cl.firstclient.map Client.idx) ?_ ?_
  · intro i _ hsome
    obtain ⟨a, ha⟩ := Option.isSome_iff_exists.mp hsome
    obtain ⟨c, hc, -, hidx⟩ := hinv.listed_of_slot i a ha
    exact List.mem_map.mpr ⟨c, hc, hidx⟩
  · have := hinv.count
    rw [List.length_map]
    omega

end Slots

/-! ## The two operations keep the invariant -/

variable {maxclients : ℤ} {cl : ClientList}

/-- INTERNAL: a fresh list satisfies the invariant.
SOURCE: client_list.c:84-98 -/
theorem client_list_init_inv (h : 0 ≤ maxclients) :
    ClientListInv maxclients (clientListInit maxclients) where
  count := rfl
  count_le := h
  arr_length := by simp [clientListInit]
  slot_of_listed := by simp [clientListInit]
  listed_of_slot := by
    intro i a ha
    simp only [clientListInit, List.getD_eq_getElem?_getD, List.getElem?_replicate] at ha
    split at ha <;> cases ha
  addr_nodup := by simp [clientListInit]
  key_nodup := by simp [clientListInit]
  ip_checked := by simp [clientListInit]

/-- INTERNAL: so is one for a negative number of clients, which has no slot. -/
theorem clientListInit_inv (maxclients : ℤ) :
    ClientListInv (max maxclients 0) (clientListInit maxclients) := by
  have hslots : clientListInit maxclients = clientListInit (max maxclients 0) := by
    have hnat : maxclients.toNat = (max maxclients 0).toNat := by omega
    unfold clientListInit
    rw [hnat]
  rw [hslots]
  exact client_list_init_inv (le_max_right _ _)

/-- INTERNAL: what `_client_list_append` does: nothing when the list is full, otherwise one
preauthenticated client at the end of the list, in an empty slot.
SOURCE: client_list.c:111-167 -/
theorem clientListAppend_cases (maxclients : ℤ) (env : Arrival) (ip mac : Text) (token : Option Text)
    (cl : ClientList) :
    (cl.clientCount ≥ maxclients ∧ clientListAppend maxclients env ip mac token cl = (none, cl)) ∨
    (cl.clientCount < maxclients ∧ ∃ c : Client,
      c.ip = ip ∧ c.mac = mac ∧ c.fwConnectionState = fwMarkPreauthenticated ∧
      c.idx = Slots.firstFree cl.clientArr maxclients.toNat ∧
      c.addr ∉ cl.firstclient.map Client.addr ∧
      clientListAppend maxclients env ip mac token cl =
        (some c,
          { firstclient := cl.firstclient ++ [c]
            clientArr := cl.clientArr.set c.idx (some c.addr)
            clientCount := cl.clientCount + 1
            lastClientTime := env.time })) := by
  unfold clientListAppend
  split
  · next hfull => exact Or.inl ⟨hfull, rfl⟩
  · next hroom =>
    exact Or.inr ⟨lt_of_not_ge hroom, _, rfl, rfl, rfl, rfl, mallocAddr_fresh _ _, rfl⟩

/-- INTERNAL: appending a client whose (IP, MAC) is not listed keeps the invariant.
SOURCE: client_list.c:111-167 -/
theorem client_list_append_inv (hinv : ClientListInv maxclients cl) (env : Arrival)
    {ip mac : Text} (token : Option Text) (hip : checkIpFormat ip = true)
    (hnew : (ip, mac) ∉ cl.firstclient.map clientKey) :
    ClientListInv maxclients (clientListAppend maxclients env ip mac token cl).2 := by
  rcases clientListAppend_cases maxclients env ip mac token cl with
    ⟨-, h⟩ | ⟨hroom, c, hcip, hcmac, -, hidx, haddr, h⟩
  · rw [h]
    exact hinv
  · have hlt := hinv.slot_search_lt hroom
    have hfree := Slots.firstFree_spec hlt
    rw [← hidx] at hlt hfree
    rw [h]
    refine ⟨?_, ?_, ?_, ?_, ?_, ?_, ?_, ?_⟩
    · have := hinv.count
      simp only [List.length_append, List.length_singleton]
      omega
    · exact hroom
    · simpa using hinv.arr_length
    · intro d hd
      rw [getD_set, hinv.arr_length]
      rcases List.mem_append.mp hd with hd | hd
      · -- an older client keeps its slot: the slot written was empty
        have hne : ¬(c.idx = d.idx ∧ c.idx < maxclients.toNat) := by
          rintro ⟨he, -⟩
          have hslot := hinv.slot_of_listed d hd
          rw [← he, hfree] at hslot
          cases hslot
        rw [if_neg hne]
        exact hinv.slot_of_listed d hd
      · rw [List.mem_singleton.mp hd, if_pos ⟨rfl, hlt⟩]
    · intro i a ha
      rw [getD_set, hinv.arr_length] at ha
      split at ha
      · next hi =>
        cases ha
        exact ⟨c, by simp, rfl, hi.1⟩
      · obtain ⟨d, hd, hda, hdi⟩ := hinv.listed_of_slot i a ha
        exact ⟨d, List.mem_append_left _ hd, hda, hdi⟩
    · rw [List.map_append, List.map_singleton]
      exact List.nodup_append.mpr ⟨hinv.addr_nodup, by simp, by
        intro a ha b hb hab
        rw [List.mem_singleton.mp hb] at hab
        exact haddr (hab ▸ ha)⟩
    · rw [List.map_append, List.map_singleton]
      refine List.nodup_append.mpr ⟨hinv.key_nodup, by simp, ?_⟩
      intro k hk k' hk' hkk
      rw [List.mem_singleton.mp hk', clientKey, hcip, hcmac] at hkk
      exact hnew (hkk ▸ hk)
    · intro d hd
      rcases List.mem_append.mp hd with hd | hd
      · exact hinv.ip_checked d hd
      · rw [List.mem_singleton.mp hd, hcip]
        exact hip

/-- INTERNAL: what `client_list_add_client` does: it returns a listed client with that IP
and the MAC the ARP table gives, or appends one, or returns `NULL` and does nothing.
SOURCE: client_list.c:191-216 -/
theorem clientListAddClient_cases (maxclients : ℤ) (env : Arrival) (ip : Text)
    (cl : ClientList) :
    (clientListAddClient maxclients env ip cl = (none, cl) ∧
      (checkIpFormat ip = false ∨ env.arp ip = none)) ∨
    (∃ mac c, checkIpFormat ip = true ∧ env.arp ip = some mac ∧
      clientListFind ip mac cl = some c ∧
      clientListAddClient maxclients env ip cl = (some c, cl)) ∨
    (∃ mac token, checkIpFormat ip = true ∧ env.arp ip = some mac ∧
      clientListFind ip mac cl = none ∧
      clientListAddClient maxclients env ip cl =
        clientListAppend maxclients env ip mac token cl) := by
  unfold clientListAddClient
  cases hip : checkIpFormat ip with
  | false => exact Or.inl ⟨by simp, Or.inl rfl⟩
  | true =>
    cases harp : env.arp ip with
    | none => exact Or.inl ⟨by simp, Or.inr rfl⟩
    | some mac =>
      cases hfind : clientListFind ip mac cl with
      | none => exact Or.inr (Or.inr ⟨mac, _, rfl, rfl, hfind, by simp only [hfind]; rfl⟩)
      | some c =>
        exact Or.inr (Or.inl ⟨mac, c, rfl, rfl, hfind, by simp only [hfind]; rfl⟩)

/-- INTERNAL: adding a client removes none, and the client it answers with is listed.
SOURCE: client_list.c:191-216 -/
theorem clientListAddClient_mem (maxclients : ℤ) (env : Arrival) (ip : Text) (cl : ClientList) :
    (∀ c ∈ cl.firstclient, c ∈ (clientListAddClient maxclients env ip cl).2.firstclient) ∧
      ∀ client, (clientListAddClient maxclients env ip cl).1 = some client →
        client ∈ (clientListAddClient maxclients env ip cl).2.firstclient := by
  rcases clientListAddClient_cases maxclients env ip cl with
    ⟨h, -⟩ | ⟨mac, c, -, -, hfind, h⟩ | ⟨mac, token, -, -, -, h⟩
  · rw [h]
    exact ⟨fun c hc => hc, by rintro _ ⟨⟩⟩
  · rw [h]
    refine ⟨fun c hc => hc, ?_⟩
    rintro _ ⟨⟩
    exact (clientListFind_eq_some hfind).1
  · rw [h]
    rcases clientListAppend_cases maxclients env ip mac token cl with
      ⟨-, hfull⟩ | ⟨-, c, -, -, -, -, -, hnew⟩
    · rw [hfull]
      exact ⟨fun c hc => hc, by rintro _ ⟨⟩⟩
    · rw [hnew]
      refine ⟨fun c hc => List.mem_append_left _ hc, ?_⟩
      rintro _ ⟨⟩
      exact List.mem_append_right _ (List.mem_singleton_self _)

/-- INTERNAL: adding a client keeps the invariant.
SOURCE: client_list.c:191-216 -/
theorem client_list_add_client_inv (hinv : ClientListInv maxclients cl) (env : Arrival)
    (ip : Text) : ClientListInv maxclients (clientListAddClient maxclients env ip cl).2 := by
  rcases clientListAddClient_cases maxclients env ip cl with
    ⟨h, -⟩ | ⟨mac, c, -, -, -, h⟩ | ⟨mac, token, hip, -, hfind, h⟩
  · rwa [h]
  · rwa [h]
  · rw [h]
    exact client_list_append_inv hinv env token hip (clientListFind_eq_none hfind)

/-- INTERNAL: what `client_list_delete` does: nothing, when the pointer is not a member;
otherwise it takes that member out of the list and empties its slot.
SOURCE: client_list.c:336-368 -/
theorem clientListDelete_cases (hinv : ClientListInv maxclients cl) (p : Option ℕ) :
    (clientListDelete p cl = cl ∧ ∀ c ∈ cl.firstclient, p ≠ some c.addr) ∨
    (∃ c l₁ l₂, p = some c.addr ∧ cl.firstclient = l₁ ++ c :: l₂ ∧
      clientListDelete p cl =
        { cl with
          firstclient := l₁ ++ l₂
          clientArr := cl.clientArr.set c.idx none
          clientCount := cl.clientCount - 1 }) := by
  cases p with
  | none => exact Or.inl ⟨rfl, by simp⟩
  | some a =>
    by_cases hmem : ∃ c ∈ cl.firstclient, c.addr = a
    · obtain ⟨c, hc, rfl⟩ := hmem
      obtain ⟨rest, hrest⟩ := unlinkNode_of_mem hinv.addr_nodup hc
      obtain ⟨-, l₁, l₂, hl, rfl⟩ := unlinkNode_eq_some hrest
      refine Or.inr ⟨c, l₁, l₂, rfl, hl, ?_⟩
      have hslot := hinv.slot_of_listed c hc
      simp only [clientListDelete, Option.bind_some, hrest, clientListFreeNode, hslot, if_true]
    · have hnone : unlinkNode a cl.firstclient = none :=
        unlinkNode_eq_none fun c hc he => hmem ⟨c, hc, he⟩
      refine Or.inl ⟨by simp [clientListDelete, hnone], ?_⟩
      intro c hc he
      exact hmem ⟨c, hc, (Option.some.inj he).symm⟩

/-- INTERNAL: deleting keeps the invariant, whatever the pointer.
SOURCE: client_list.c:336-368 -/
theorem client_list_delete_inv (hinv : ClientListInv maxclients cl) (p : Option ℕ) :
    ClientListInv maxclients (clientListDelete p cl) := by
  rcases clientListDelete_cases hinv p with ⟨h, -⟩ | ⟨c, l₁, l₂, -, hl, h⟩
  · rwa [h]
  · have hc : c ∈ cl.firstclient := by simp [hl]
    have hsub : (l₁ ++ l₂).Sublist cl.firstclient := by
      rw [hl]
      exact List.Sublist.append_left (List.sublist_cons_self c l₂) l₁
    have hnot : c ∉ l₁ ++ l₂ := by
      have hnd := List.Nodup.of_map _ hinv.addr_nodup
      rw [hl, List.nodup_middle, List.nodup_cons] at hnd
      exact hnd.1
    have hne : ∀ d ∈ l₁ ++ l₂, c.idx ≠ d.idx := fun d hd he =>
      hnot (hinv.idx_inj hc (hsub.subset hd) he ▸ hd)
    rw [h]
    refine ⟨?_, ?_, ?_, ?_, ?_, ?_, ?_, ?_⟩
    · have := hinv.count
      rw [hl] at this
      simp only [List.length_append, List.length_cons] at this ⊢
      omega
    · have := hinv.count_le
      dsimp only
      omega
    · simpa using hinv.arr_length
    · intro d hd
      rw [getD_set, if_neg fun hboth => hne d hd hboth.1]
      exact hinv.slot_of_listed d (hsub.subset hd)
    · intro i a ha
      rw [getD_set] at ha
      split at ha
      · cases ha
      · next hi =>
        obtain ⟨d, hd, hda, hdi⟩ := hinv.listed_of_slot i a ha
        refine ⟨d, ?_, hda, hdi⟩
        -- the owner of a slot that was not emptied is not the client deleted
        have hdc : d ≠ c := by
          rintro rfl
          exact hi ⟨hdi, lt_length_of_getD (hinv.slot_of_listed d hc)⟩
        rw [hl] at hd
        simp only [List.mem_append, List.mem_cons] at hd ⊢
        tauto
    · exact hinv.addr_nodup.sublist (hsub.map _)
    · exact hinv.key_nodup.sublist (hsub.map _)
    · exact fun d hd => hinv.ip_checked d (hsub.subset hd)

/-- INTERNAL: changing clients otherwise than in their address, key and slot keeps the
invariant. -/
theorem ClientListInv.map (hinv : ClientListInv maxclients cl) {g : Client → Client}
    (hg : ∀ c, (g c).addr = c.addr ∧ clientKey (g c) = clientKey c ∧ (g c).idx = c.idx) :
    ClientListInv maxclients { cl with firstclient := cl.firstclient.map g } where
  count := by simpa using hinv.count
  count_le := hinv.count_le
  arr_length := hinv.arr_length
  slot_of_listed := by
    intro d hd
    obtain ⟨c, hc, rfl⟩ := List.mem_map.mp hd
    obtain ⟨haddr, -, hidx⟩ := hg c
    rw [haddr, hidx]
    exact hinv.slot_of_listed c hc
  listed_of_slot := by
    intro i a ha
    obtain ⟨c, hc, haddr, hidx⟩ := hinv.listed_of_slot i a ha
    exact ⟨g c, List.mem_map_of_mem hc, (hg c).1.trans haddr, (hg c).2.2.trans hidx⟩
  addr_nodup := by
    have haddr : Client.addr ∘ g = Client.addr := funext fun c => (hg c).1
    rw [List.map_map, haddr]
    exact hinv.addr_nodup
  key_nodup := by
    have hkey : clientKey ∘ g = clientKey := funext fun c => (hg c).2.1
    rw [List.map_map, hkey]
    exact hinv.key_nodup
  ip_checked := by
    intro d hd
    obtain ⟨c, hc, rfl⟩ := List.mem_map.mp hd
    have hip : (g c).ip = c.ip := congrArg Prod.fst (hg c).2.1
    rw [hip]
    exact hinv.ip_checked c hc

/-- INTERNAL: a list for a negative number of clients takes as many as a list for none. -/
theorem clientListAddClient_max (hcount : 0 ≤ cl.clientCount) (env : Arrival) (ip : Text) :
    clientListAddClient maxclients env ip cl = clientListAddClient (max maxclients 0) env ip cl := by
  rcases le_total 0 maxclients with h | h
  · rw [max_eq_left h]
  · have happend : ∀ mac token, clientListAppend maxclients env ip mac token cl =
        clientListAppend 0 env ip mac token cl := by
      intro mac token
      simp only [clientListAppend]
      rw [if_pos (show cl.clientCount ≥ maxclients by omega), if_pos hcount]
    rw [max_eq_right h]
    simp only [clientListAddClient, happend]

/-- INTERNAL: **every reachable client list satisfies the invariant.**
SOURCE: client_list.c:84-368 -/
theorem client_list_run_inv (h : 0 ≤ maxclients) (calls : List ListCall) :
    ClientListInv maxclients (clientListRun maxclients calls) := by
  refine Run.invariant_foldl (I := ClientListInv maxclients) ?_ calls (client_list_init_inv h)
  intro cl call hinv
  cases call with
  | add env ip => exact client_list_add_client_inv hinv env ip
  | delete p => exact client_list_delete_inv hinv p

/-! ## The representation, spelled out -/

/-- The list, the slot array and the counter represent one set of clients, for an array
of `maxclients` slots. -/
structure RepresentsOneSet (maxclients : ℤ) (cl : ClientList) : Prop where
  count_eq : cl.clientCount = cl.firstclient.length
  count_le : cl.clientCount ≤ maxclients
  own_slot : ∀ c ∈ cl.firstclient,
    (c.idx : ℤ) < maxclients ∧ cl.clientArr[c.idx]? = some (some c.addr)
  slot_owner : ∀ i a, cl.clientArr[i]? = some (some a) →
    ∃ c ∈ cl.firstclient, c.addr = a ∧ c.idx = i
  idx_nodup : (cl.firstclient.map Client.idx).Nodup
  slot_search : cl.clientCount < maxclients →
    Slots.firstFree cl.clientArr maxclients.toNat < maxclients.toNat
  key_nodup : (cl.firstclient.map clientKey).Nodup

/-- What a call of `client_list_add_client` must do: return the listed client with this
IP and the MAC the ARP table gives; when there is none, append one node at the tail and
return it, or return `NULL` and change nothing. -/
structure AddsAtMostOne (maxclients : ℤ) (env : Arrival) (ip : Text) (cl : ClientList) :
    Prop where
  listed : ∀ mac, env.arp ip = some mac → ∀ c ∈ cl.firstclient, clientKey c = (ip, mac) →
    clientListAddClient maxclients env ip cl = (some c, cl)
  unlisted : (∀ mac, env.arp ip = some mac → (ip, mac) ∉ cl.firstclient.map clientKey) →
    clientListAddClient maxclients env ip cl = (none, cl) ∨
    ∃ c, (clientListAddClient maxclients env ip cl).1 = some c ∧ c.ip = ip ∧
      env.arp ip = some c.mac ∧
      (clientListAddClient maxclients env ip cl).2.firstclient = cl.firstclient ++ [c]

/-- What a call of `client_list_delete` must do: take out the given member and keep the
order of the rest, or change nothing when the pointer is not a member. -/
def DeletesExactly (p : Option ℕ) (cl : ClientList) : Prop :=
  (∃ c l₁ l₂, p = some c.addr ∧ cl.firstclient = l₁ ++ c :: l₂ ∧
    (clientListDelete p cl).firstclient = l₁ ++ l₂) ∨
  ((∀ c ∈ cl.firstclient, p ≠ some c.addr) ∧ clientListDelete p cl = cl)

/-- INTERNAL: the invariant gives the representation.
SOURCE: client_list.c:53-66 -/
theorem ClientListInv.representsOneSet (hinv : ClientListInv maxclients cl) :
    RepresentsOneSet maxclients cl where
  count_eq := hinv.count
  count_le := hinv.count_le
  own_slot := by
    intro c hc
    have hlt := hinv.idx_lt hc
    have hslot := hinv.slot_of_listed c hc
    refine ⟨by omega, ?_⟩
    rw [← hinv.arr_length] at hlt
    rwa [List.getD_eq_getElem?_getD, List.getElem?_eq_getElem hlt, Option.getD_some,
      ← Option.some_inj, ← List.getElem?_eq_getElem hlt] at hslot
  slot_owner := by
    intro i a h
    exact hinv.listed_of_slot i a (by rw [List.getD_eq_getElem?_getD, h, Option.getD_some])
  idx_nodup := by
    have hnd := List.Nodup.of_map _ hinv.addr_nodup
    exact hnd.map_on fun c hc d hd h => hinv.idx_inj hc hd h
  slot_search := hinv.slot_search_lt
  key_nodup := hinv.key_nodup

/-- INTERNAL: adding, under the invariant.
SOURCE: client_list.c:191-216 -/
theorem ClientListInv.addsAtMostOne (hinv : ClientListInv maxclients cl) (env : Arrival)
    (ip : Text) : AddsAtMostOne maxclients env ip cl where
  listed := by
    rintro mac harp c hc hkey
    obtain ⟨rfl, rfl⟩ := Prod.mk.inj hkey
    simp only [clientListAddClient, hinv.ip_checked c hc, harp,
      clientListFind_of_mem hinv.key_nodup hc, Bool.not_true, Bool.false_eq_true, if_false]
  unlisted := by
    intro hnew
    rcases clientListAddClient_cases maxclients env ip cl with
      ⟨h, -⟩ | ⟨mac, c, -, harp, hfind, -⟩ | ⟨mac, token, -, harp, -, h⟩
    · exact Or.inl h
    · obtain ⟨hc, hcip, hcmac⟩ := clientListFind_eq_some hfind
      refine absurd (List.mem_map_of_mem (f := clientKey) hc) ?_
      rw [clientKey, hcip, hcmac]
      exact hnew mac harp
    · rw [h]
      rcases clientListAppend_cases maxclients env ip mac token cl with
        ⟨-, hfull⟩ | ⟨-, c, hcip, hcmac, -, -, -, happ⟩
      · exact Or.inl hfull
      · refine Or.inr ⟨c, ?_⟩
        rw [happ]
        exact ⟨rfl, hcip, by rw [harp, hcmac], rfl⟩

/-- INTERNAL: deleting, under the invariant.
SOURCE: client_list.c:336-368 -/
theorem ClientListInv.deletesExactly (hinv : ClientListInv maxclients cl) (p : Option ℕ) :
    DeletesExactly p cl := by
  rcases clientListDelete_cases hinv p with ⟨h, hnot⟩ | ⟨c, l₁, l₂, hp, hl, h⟩
  · exact Or.inr ⟨hnot, h⟩
  · exact Or.inl ⟨c, l₁, l₂, hp, hl, by rw [h]⟩

/-- **Client-list representation**: after any sequence of calls on a fresh list of
`maxclients` slots the three representations agree, and the next call does what it says.
SOURCE: client_list.c:84-368 -/
theorem client_list_representation (maxclients : ℤ) (h : 0 ≤ maxclients)
    (calls : List ListCall) :
    RepresentsOneSet maxclients (clientListRun maxclients calls) ∧
    (∀ env ip, AddsAtMostOne maxclients env ip (clientListRun maxclients calls)) ∧
    (∀ p, DeletesExactly p (clientListRun maxclients calls)) := by
  have hinv := client_list_run_inv h calls
  exact ⟨hinv.representsOneSet, hinv.addsAtMostOne, hinv.deletesExactly⟩

/-- Two slots, three arrivals, and the first node deleted between the second and third. -/
def sampleCalls : List ListCall :=
  let arrival (hint : ℕ) : Arrival :=
    { arp := fun _ => some "00:11:22:33:44:55".toList
      rand16 := (0, 0)
      time := 0
      mallocHint := hint }
  [.add (arrival 7) "10.0.0.1".toList, .add (arrival 8) "10.0.0.2".toList, .delete (some 7),
    .add (arrival 9) "10.0.0.3".toList]

/-- The representation on a run that leaves a hole in the array and fills it again.
SOURCE: client_list.c:143-151 -/
theorem client_list_representation_sample :
    (clientListRun 2 sampleCalls).firstclient.map Client.idx = [1, 0] ∧
    RepresentsOneSet 2 (clientListRun 2 sampleCalls) :=
  ⟨by decide +kernel, (client_list_representation 2 (by decide) sampleCalls).1⟩

end WifiCat.Analysis
