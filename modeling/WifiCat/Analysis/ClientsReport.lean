import WifiCat.Model.ClientsText
import WifiCat.Analysis.TimeoutSweep
import WifiCat.Analysis.TokenQuestion

/-!
# The report of the clients and its buffer

A complete report is a line with the number of clients and, for each of them, a record of
twelve lines that a blank line ends (`clientsReport`).  What `get_clients_text` answers with
is what fits of it into 16384 bytes beside the NUL, and nothing is stored outside the buffer
(`clientsBuffer_holds`).  So the report is complete exactly while it is shorter than the
buffer, which no list of 147 clients or more is (`reportLength_ge`).
-/

set_option autoImplicit false

namespace WifiCat.Analysis

open Scan

/-! ## The report that is meant -/

variable (speed : BitVec 64 → BitVec 64 → Text) (now : ℤ) (fw : Firewall)

/-- The fields of a record: index, addresses, times, token, state and traffic. -/
def recordFields (c : Client) (indx : ℕ) : List (String × Text) :=
  [("client_id", decimal indx), ("ip", c.ip), ("mac", c.mac), ("added", decimal c.addedTime),
    ("active", decimal c.counters.lastUpdated), ("duration", decimalUnsigned (duration now c)),
    ("token", c.token.getD "none".toList),
    ("state", fwConnectionStateAsString fw c.fwConnectionState),
    ("downloaded", decimalUnsigned (c.counters.incoming / 1000)),
    ("avg_down_speed", speed c.counters.incoming (duration now c)),
    ("uploaded", decimalUnsigned (c.counters.outgoing / 1000)),
    ("avg_up_speed", speed c.counters.outgoing (duration now c))]

/-- A record: a line for each field, and a blank line. -/
def recordText (fields : List (String × Text)) : Text :=
  (fields.flatMap fun f => keyLine f.1 f.2) ++ ['\n']

/-- The complete report of a list of clients. -/
def clientsReport (clients : List Client) : Text :=
  decimal clients.length ++ ['\n'] ++ (if clients = [] then [] else ['\n']) ++
    clients.zipIdx.flatMap fun c => recordText (recordFields speed now fw c.1 c.2)

/-- The length of a record: each line has its key, its value, `=` and a newline. -/
def recordLength (fields : List (String × Text)) : ℕ :=
  (fields.map fun f => f.1.length + (cString f.2).length + 2).sum + 1

/-- The length of the complete report. -/
def reportLength (clients : List Client) : ℕ :=
  (decimal clients.length).length + 1 + (if clients = [] then 0 else 1) +
    (clients.zipIdx.map fun c => recordLength (recordFields speed now fw c.1 c.2)).sum

variable {speed : BitVec 64 → BitVec 64 → Text} {now : ℤ} {fw : Firewall}

theorem length_recordText (fields : List (String × Text)) :
    (recordText fields).length = recordLength fields := by
  induction fields with
  | nil => rfl
  | cons f fields ih =>
    simp only [recordText, recordLength, keyLine, List.flatMap_cons, List.length_append,
      List.length_cons, List.length_nil, List.map_cons, List.sum_cons, String.length_toList] at ih ⊢
    omega

theorem length_clientsReport (clients : List Client) :
    (clientsReport speed now fw clients).length = reportLength speed now fw clients := by
  simp only [clientsReport, reportLength, List.length_append, List.length_flatMap,
    length_recordText, List.length_singleton]
  split <;> rfl

/-- The keys of a record. -/
def recordKeys : List String :=
  ["client_id", "ip", "mac", "added", "active", "duration", "token", "state", "downloaded",
    "avg_down_speed", "uploaded", "avg_up_speed"]

theorem map_fst_recordFields (speed : BitVec 64 → BitVec 64 → Text) (now : ℤ) (fw : Firewall)
    (c : Client) (indx : ℕ) : (recordFields speed now fw c indx).map Prod.fst = recordKeys := rfl

/-- INTERNAL: a record has 112 characters beside its values. -/
theorem recordLength_ge (c : Client) (indx : ℕ) :
    112 ≤ recordLength (recordFields speed now fw c indx) := by
  have hkeys : (recordKeys.map fun key => key.length + 2).sum = 111 := by decide +kernel
  rw [← map_fst_recordFields speed now fw c indx, List.map_map] at hkeys
  have hle : ((recordFields speed now fw c indx).map
      ((fun key => key.length + 2) ∘ Prod.fst)).sum ≤
      ((recordFields speed now fw c indx).map fun f =>
        f.1.length + (cString f.2).length + 2).sum :=
    List.sum_le_sum fun f _ => by
      rw [Function.comp_apply]
      omega
  rw [hkeys] at hle
  exact Nat.add_le_add_right hle 1

/-- INTERNAL: the length of a report grows with the number of clients. -/
theorem reportLength_ge (speed : BitVec 64 → BitVec 64 → Text) (now : ℤ) (fw : Firewall)
    (clients : List Client) :
    112 * clients.length ≤ reportLength speed now fw clients := by
  have hle := List.sum_le_sum (l := clients.zipIdx) (f := fun _ => 112)
    (g := fun c => recordLength (recordFields speed now fw c.1 c.2))
    fun c _ => recordLength_ge c.1 c.2
  rw [List.map_const', List.sum_replicate, smul_eq_mul, List.length_zipIdx, Nat.mul_comm] at hle
  exact hle.trans (Nat.le_add_left _ _)

/-! ## What is printed -/

theorem not_mem_keyLine {key : String} (h : '\x00' ∉ key.toList) (value : Text) :
    '\x00' ∉ keyLine key value := by
  refine List.not_mem_append (List.not_mem_append h ?_) (by decide)
  rw [List.mem_cons, not_or]
  exact ⟨by decide, not_mem_cString value⟩

theorem not_mem_decimal (n : ℤ) : '\x00' ∉ decimal n := by
  intro hmem
  rcases mem_decimal hmem with h | h
  · exact absurd h (by decide)
  · exact absurd h (by decide)

/-- INTERNAL: the prints of a client are its record. -/
theorem flatten_clientPrints (c : Client) (indx : ℕ) :
    (clientPrints speed now fw c indx).flatten =
      recordText (recordFields speed now fw c indx) := by
  simp only [clientPrints, recordText, recordFields, List.flatten_cons, List.flatten_nil,
    List.flatMap_cons, List.flatMap_nil, List.append_assoc, List.append_nil]

/-- INTERNAL: a record holds no NUL. -/
theorem not_mem_recordText (c : Client) (indx : ℕ) :
    '\x00' ∉ recordText (recordFields speed now fw c indx) := by
  have hkeys : ∀ key ∈ recordKeys, '\x00' ∉ key.toList := by decide +kernel
  refine List.not_mem_append ?_ (by decide)
  intro hmem
  obtain ⟨f, hf, hline⟩ := List.mem_flatMap.mp hmem
  exact not_mem_keyLine (hkeys f.1 (List.mem_map_of_mem (f := Prod.fst) hf)) f.2 hline

/-- The prints of a call, in their order. -/
def reportPrints (speed : BitVec 64 → BitVec 64 → Text) (now : ℤ) (fw : Firewall)
    (clients : List Client) : List Text :=
  (if clients = [] then [] else [['\n']]) ++
    clients.zipIdx.flatMap fun c => clientPrints speed now fw c.1 c.2

/-- INTERNAL: the loop over the clients prints text after text.
SOURCE: util.c:662-709 -/
theorem clientsBuffer_eq_printAll (input : RefreshInput) (w : World) (buffer : Buffer Char) :
    let cl := (iptablesFwCountersUpdate input w.clients).2
    clientsBuffer speed now input w buffer = Buffer.printAll '\x00' (buffer, 0)
      ((decimal cl.clientCount ++ ['\n']) :: reportPrints speed now w.fw cl.firstclient) := by
  intro cl
  unfold clientsBuffer reportPrints Buffer.printAll
  rw [List.foldl_cons, List.foldl_append, List.foldl_flatMap]
  dsimp only
  split <;> rfl

/-- INTERNAL: the prints of a call are the complete report. -/
theorem flatten_reportPrints (clients : List Client) :
    ((decimal clients.length ++ ['\n']) :: reportPrints speed now fw clients).flatten =
      clientsReport speed now fw clients := by
  have hrecords : (clients.zipIdx.flatMap fun c => clientPrints speed now fw c.1 c.2).flatten =
      clients.zipIdx.flatMap fun c => recordText (recordFields speed now fw c.1 c.2) := by
    rw [List.flatMap_def, List.flatten_flatten, List.map_map, List.flatMap_def]
    congr 2
    funext c
    exact flatten_clientPrints c.1 c.2
  have hblank : (if clients = [] then [] else [['\n']] : List Text).flatten =
      if clients = [] then [] else ['\n'] := by
    split <;> rfl
  rw [reportPrints, List.flatten_cons, List.flatten_append, hrecords, hblank, clientsReport,
    ← List.append_assoc]

/-- INTERNAL: a report holds no NUL. -/
theorem not_mem_clientsReport (clients : List Client) :
    '\x00' ∉ clientsReport speed now fw clients := by
  refine List.not_mem_append (List.not_mem_append
    (List.not_mem_append (not_mem_decimal _) (by decide)) ?_) ?_
  · split <;> decide
  · intro hmem
    obtain ⟨c, -, hrecord⟩ := List.mem_flatMap.mp hmem
    exact not_mem_recordText c.1 c.2 hrecord

/-- INTERNAL: **what a call leaves in its buffer**: nothing is stored outside it, and it
holds what fits of the complete report.
SOURCE: util.c:645-714 -/
theorem clientsBuffer_holds {maxclients : ℤ} {w : World} {buffer : Buffer Char}
    (speed : BitVec 64 → BitVec 64 → Text) (now : ℤ) (input : RefreshInput)
    (hinv : ClientListInv maxclients w.clients) (hlen : buffer.bytes.length = STATUS_BUF_SIZ)
    (hinside : buffer.outside = false) :
    Buffer.Holds '\x00' STATUS_BUF_SIZ
      ((clientsReport speed now w.fw
        (iptablesFwCountersUpdate input w.clients).2.firstclient).take (STATUS_BUF_SIZ - 1))
      (clientsBuffer speed now input w buffer).1 := by
  have hcount := (countersUpdate_inv hinv input).count
  set cl := (iptablesFwCountersUpdate input w.clients).2 with hcl
  have hclean : ∀ text ∈ (decimal cl.firstclient.length ++ ['\n']) ::
      reportPrints speed now w.fw cl.firstclient, '\x00' ∉ text := by
    intro text htext hmem
    have hflat := List.mem_flatten_of_mem htext hmem
    rw [flatten_reportPrints] at hflat
    exact not_mem_clientsReport cl.firstclient hflat
  rw [clientsBuffer_eq_printAll, ← hcl, hcount, ← flatten_reportPrints]
  exact Buffer.holds_printAll hlen hinside ⟨buffer.bytes, rfl⟩ List.not_mem_nil hclean (by decide)

/-- What fits of a text is the text exactly when it is shorter than the buffer. -/
theorem take_pred_eq_iff {size : ℕ} (hsize : 0 < size) (t : Text) :
    t.take (size - 1) = t ↔ t.length < size := by
  rw [List.take_eq_self_iff]
  omega

/-- **When the report of the clients is complete**: the prints stay inside the buffer, and
the text is the count line and the records of all the clients in the order of the list,
exactly when these are shorter than the buffer together.
SOURCE: util.c:645-714 -/
theorem clients_report_complete_iff {maxclients : ℤ} {w : World} {buffer : Buffer Char}
    (speed : BitVec 64 → BitVec 64 → Text) (now : ℤ) (input : RefreshInput)
    (hinv : ClientListInv maxclients w.clients) (hlen : buffer.bytes.length = STATUS_BUF_SIZ)
    (hinside : buffer.outside = false) :
    let clients := (iptablesFwCountersUpdate input w.clients).2.firstclient
    (clientsBuffer speed now input w buffer).1.outside = false ∧
        getClientsText speed now input w buffer = clientsReport speed now w.fw clients ↔
      reportLength speed now w.fw clients < STATUS_BUF_SIZ := by
  intro clients
  have hholds := clientsBuffer_holds speed now input hinv hlen hinside
  rw [getClientsText, hholds.string_eq, take_pred_eq_iff (by decide), length_clientsReport]
  exact and_iff_right hholds.inside

/-! ## A list that is too long -/

/-- A device with a new address is added to a list that is not full.
SOURCE: client_list.c:191-216 -/
theorem clientListAddClient_new {maxclients : ℤ} {cl : ClientList} {env : Arrival} {ip mac : Text}
    (hip : checkIpFormat ip = true) (harp : env.arp ip = some mac)
    (hnew : ip ∉ cl.firstclient.map Client.ip) (hroom : cl.clientCount < maxclients) :
    (clientListAddClient maxclients env ip cl).2.firstclient.map Client.ip =
      cl.firstclient.map Client.ip ++ [ip] := by
  rcases clientListAddClient_cases maxclients env ip cl with
    ⟨-, hno⟩ | ⟨mac', c, -, -, hfind, -⟩ | ⟨mac', token, -, -, -, h⟩
  · rcases hno with hno | hno
    · rw [hip] at hno
      cases hno
    · rw [harp] at hno
      cases hno
  · obtain ⟨hc, hcip, -⟩ := clientListFind_eq_some hfind
    exact absurd (hcip ▸ List.mem_map_of_mem hc) hnew
  · rcases clientListAppend_cases maxclients env ip mac' token cl with
      ⟨hfull, -⟩ | ⟨-, c, hcip, -, -, -, -, happend⟩
    · omega
    · rw [h, happend, List.map_append, List.map_singleton, hcip]

/-- The address of the device with a number. -/
def crowdIp (i : ℕ) : Text := inetNtoa (10, Fin.ofNat 256 i, 0, 1)

/-- The number of the device with an address. -/
def crowdNumber (ip : Text) : ℕ := Nat.ofDigitChars 10 ((ip.drop 3).takeWhile Char.isDigit) 0

/-- The list of 147 slots to which devices were added, one after another. -/
def crowd (n : ℕ) : ClientList :=
  (List.range n).foldl
    (fun cl i => (clientListAddClient 147
      ⟨fun _ => some "00:11:22:33:44:55".toList, (1, 2), 0, i + 1⟩ (crowdIp i) cl).2)
    (clientListInit 147)

/-- INTERNAL: each device of the crowd is listed. -/
theorem crowd_listed {n : ℕ} (hn : n ≤ 147) :
    ClientListInv 147 (crowd n) ∧
      (crowd n).firstclient.map Client.ip = (List.range n).map crowdIp := by
  have hnumbers : ((List.range 147).map crowdIp).map crowdNumber = List.range 147 := by
    decide +kernel
  have hips : ((List.range 147).map crowdIp).Nodup :=
    List.Nodup.of_map crowdNumber (by rw [hnumbers]; exact List.nodup_range)
  have hchecked : ∀ i ∈ List.range 147, checkIpFormat (crowdIp i) = true := by decide +kernel
  induction n with
  | zero => exact ⟨client_list_init_inv (by decide), rfl⟩
  | succ n ih =>
    obtain ⟨hinv, hlisted⟩ := ih (by omega)
    have hlength := congrArg List.length hlisted
    rw [List.length_map, List.length_map, List.length_range] at hlength
    have hnew : crowdIp n ∉ (crowd n).firstclient.map Client.ip := by
      rw [hlisted]
      have hsub : ((List.range (n + 1)).map crowdIp).Nodup :=
        hips.sublist ((List.range_sublist.mpr hn).map _)
      rw [List.range_succ, List.map_append, List.map_singleton, List.nodup_append] at hsub
      exact fun hmem => hsub.2.2 _ hmem _ (List.mem_singleton_self _) rfl
    have hroom : (crowd n).clientCount < 147 := by
      rw [hinv.count, hlength]
      omega
    have hstep : crowd (n + 1) = (clientListAddClient 147
        ⟨fun _ => some "00:11:22:33:44:55".toList, (1, 2), 0, n + 1⟩ (crowdIp n) (crowd n)).2 := by
      rw [crowd, List.range_succ, List.foldl_append]
      rfl
    rw [hstep]
    refine ⟨client_list_add_client_inv hinv _ _, ?_⟩
    rw [clientListAddClient_new (hchecked n (List.mem_range.mpr hn)) rfl hnew hroom, hlisted,
      List.range_succ, List.map_append, List.map_singleton]

/-- The daemon with a crowd of clients. -/
def crowdedWorld (n : ℕ) : World := { config := { maxclients := 147 }, fw := {}, clients := crowd n }

/-- Counters that cannot be read leave the clients as they are. -/
def noListing : RefreshInput := ⟨none, none, fun _ => 0, fun _ => 0⟩

/-- The stack buffer, with whatever was in it. -/
def stackBuffer : Buffer Char := ⟨List.replicate STATUS_BUF_SIZ 'x', false⟩

/-- A minute after they came, clients without traffic had no speed: `0/125/60` is `0`. -/
def noSpeed (_ _ : BitVec 64) : Text := "0".toList

/-- The first two devices of the crowd, with the traffic of a minute. -/
def pairListing : RefreshInput :=
  { outgoing := some [⟨75000, "MARK".toList, crowdIp 0⟩, ⟨7500, "MARK".toList, crowdIp 1⟩]
    incoming := some [⟨750000, "ACCEPT".toList, crowdIp 0⟩, ⟨1500000, "ACCEPT".toList, crowdIp 1⟩]
    readAt := fun _ => 60
    now := fun _ => 60 }

/-- What `%.6g` prints of a speed that is a whole number of at most six digits. -/
def wholeSpeed (bytes duration : BitVec 64) : Text := decimalUnsigned (bytes / 125 / duration)

/-- Two clients with traffic are reported completely. -/
theorem clients_report_complete_pair :
    let clients := (iptablesFwCountersUpdate pairListing (crowd 2)).2.firstclient
    clients.map (fun c => (c.counters.outgoing, c.counters.incoming)) =
        [(75000, 750000), (7500, 1500000)] ∧
      (clientsBuffer wholeSpeed 60 pairListing (crowdedWorld 2) stackBuffer).1.outside = false ∧
      getClientsText wholeSpeed 60 pairListing (crowdedWorld 2) stackBuffer =
        clientsReport wholeSpeed 60 {} clients :=
  ⟨by decide +kernel, (clients_report_complete_iff wholeSpeed 60 pairListing (w := crowdedWorld 2)
    (crowd_listed (by decide)).1 List.length_replicate rfl).mpr (by decide +kernel)⟩

/-- INTERNAL: what is printed of a crowd. -/
theorem getClientsText_crowded {n : ℕ} (hn : n ≤ 147) :
    getClientsText noSpeed 60 noListing (crowdedWorld n) stackBuffer =
      (clientsReport noSpeed 60 {} (crowd n).firstclient).take (STATUS_BUF_SIZ - 1) :=
  (clientsBuffer_holds noSpeed 60 noListing (w := crowdedWorld n) (crowd_listed hn).1
    List.length_replicate rfl).string_eq

/-- The text of 147 clients: the count line says so, and the records are cut.
SOURCE: util.c:645-714 -/
theorem clients_report_cut :
    ClientListInv 147 (crowd 147) ∧ (crowd 147).firstclient.length = 147 ∧
      "147\n".toList <+: getClientsText noSpeed 60 noListing (crowdedWorld 147) stackBuffer ∧
      getClientsText noSpeed 60 noListing (crowdedWorld 147) stackBuffer ≠
        clientsReport noSpeed 60 {} (crowd 147).firstclient := by
  obtain ⟨hinv, hlisted⟩ := crowd_listed (le_refl 147)
  have hlength := congrArg List.length hlisted
  rw [List.length_map, List.length_map, List.length_range] at hlength
  set report := clientsReport noSpeed 60 {} (crowd 147).firstclient with hreport
  have htext := getClientsText_crowded (le_refl 147)
  rw [← hreport] at htext
  have hlong : 112 * 147 ≤ report.length := by
    have hge := reportLength_ge noSpeed 60 {} (crowd 147).firstclient
    rwa [hlength, ← length_clientsReport, ← hreport] at hge
  refine ⟨hinv, hlength, ?_, ?_⟩
  · have hcount : "147\n".toList = decimal (147 : ℕ) ++ ['\n'] := by decide
    rw [htext, List.prefix_take_iff, hreport, clientsReport, hlength, hcount, List.append_assoc]
    exact ⟨List.prefix_append _ _, by decide⟩
  · rw [htext, ne_eq, take_pred_eq_iff (by decide), STATUS_BUF_SIZ]
    omega

end WifiCat.Analysis
