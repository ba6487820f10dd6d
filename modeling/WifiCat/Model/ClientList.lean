import WifiCat.Library.Run
import WifiCat.Model.Conf

/-!
# The client list

`client_list.c`: a linked list of clients, an array of slots that point to them and a
counter.  A node of the linked list is a `Client` with the address `malloc` gave it;
the list is the nodes in the order `firstclient` and `next` reach them, and a slot holds
the address of a node or `NULL`.

What a call takes from outside the program (the answer of `arp_get`, the two random
numbers of the token, the clock and the address of the new node) is an `Arrival`.
-/

set_option autoImplicit false

namespace WifiCat

open Scan

/-- `FW_MARK_PREAUTHENTICATED` is always 0.
SOURCE: fw_iptables.c:97 -/
def fwMarkPreauthenticated : BitVec 32 := 0

/-- A client's traffic counters.
SOURCE: client_list.h:33-39 -/
structure Counters where
  incoming : BitVec 64 := 0
  outgoing : BitVec 64 := 0
  incomingHistory : BitVec 64 := 0
  outgoingHistory : BitVec 64 := 0
  lastUpdated : ℤ := 0
deriving DecidableEq, Repr

/-- A node of the client list; `addr` is its address.
SOURCE: client_list.h:43-57 -/
structure Client where
  addr : ℕ
  ip : Text
  mac : Text
  token : Option Text
  fwConnectionState : BitVec 32 := fwMarkPreauthenticated
  addedTime : ℤ := 0
  counters : Counters := {}
  downloadLimit : ℤ := 0
  uploadLimit : ℤ := 0
  idx : ℕ
deriving DecidableEq, Repr

/-- The state of `client_list.c`.
SOURCE: client_list.c:53-66 -/
structure ClientList where
  firstclient : List Client := []
  clientArr : List (Option ℕ) := []
  clientCount : ℤ := 0
  lastClientTime : ℤ := 0
deriving DecidableEq, Repr

/-- What one call of `client_list_add_client` takes from outside the program. -/
structure Arrival where
  arp : Text → Option Text
  rand16 : BitVec 16 × BitVec 16
  time : ℤ
  mallocHint : ℕ

/-- `client_list_init`: no client, and `maxclients` empty slots.
SOURCE: client_list.c:84-98 -/
def clientListInit (maxclients : ℤ) (cl : ClientList := {}) : ClientList :=
  { cl with
    firstclient := []
    clientCount := 0
    clientArr := List.replicate maxclients.toNat none }

/-- An address that no live node has: the hint, unless it is taken.  Every address an
allocator may answer is reached by some hint. -/
def mallocAddr (hint : ℕ) (live : List ℕ) : ℕ :=
  if hint ∈ live then live.sum + 1 else hint

/-- Four hexadecimal digits, `%04hx`. -/
def hex4 (r : BitVec 16) : Text :=
  List.replicate (4 - (hexDigits r.toNat).length) '0' ++ hexDigits r.toNat

/-- `_client_list_make_auth_token`.
SOURCE: client_list.c:175-183 -/
def clientListMakeAuthToken (rand16 : BitVec 16 × BitVec 16) : Text :=
  hex4 rand16.1 ++ hex4 rand16.2

/-- `_client_list_append`: the new client goes to the end of the list and to the first
empty slot.
SOURCE: client_list.c:111-167 -/
def clientListAppend (maxclients : ℤ) (env : Arrival) (ip mac : Text) (token : Option Text)
    (cl : ClientList) : Option Client × ClientList :=
  if cl.clientCount ≥ maxclients then (none, cl)
  else
    -- the slot search ends with `i = maxclients` when every slot is taken
    let i := Slots.firstFree cl.clientArr maxclients.toNat
    let client : Client :=
      { addr := mallocAddr env.mallocHint (cl.firstclient.map Client.addr)
        ip := ip
        mac := mac
        token := token
        addedTime := env.time
        counters := { lastUpdated := env.time }
        idx := i }
    (some client,
      { firstclient := cl.firstclient ++ [client]
        clientArr := cl.clientArr.set i (some client.addr)
        clientCount := cl.clientCount + 1
        lastClientTime := env.time })

/-- `client_list_find`: the first client with this IP and MAC.
SOURCE: client_list.c:223-236 -/
def clientListFind (ip mac : Text) (cl : ClientList) : Option Client :=
  cl.firstclient.find? fun c => c.ip == ip && c.mac == mac

/-- `client_list_find_by_ip`.
SOURCE: client_list.c:245-258 -/
def clientListFindByIp (ip : Text) (cl : ClientList) : Option Client :=
  cl.firstclient.find? fun c => c.ip == ip

/-- `client_list_find_by_mac`.
SOURCE: client_list.c:266-279 -/
def clientListFindByMac (mac : Text) (cl : ClientList) : Option Client :=
  cl.firstclient.find? fun c => c.mac == mac

/-- `client_list_add_client`.
SOURCE: client_list.c:191-216 -/
def clientListAddClient (maxclients : ℤ) (env : Arrival) (ip : Text) (cl : ClientList) :
    Option Client × ClientList :=
  if !checkIpFormat ip then (none, cl)
  else
    match env.arp ip with
    | none => (none, cl)
    | some mac =>
      match clientListFind ip mac cl with
      | none =>
        clientListAppend maxclients env ip mac (some (clientListMakeAuthToken env.rand16)) cl
      | some client => (some client, cl)

/-- `_client_list_free_node`: the client's slot is emptied if it still points to it.
SOURCE: client_list.c:311-327 -/
def clientListFreeNode (client : Client) (cl : ClientList) : ClientList :=
  if cl.clientArr.getD client.idx none = some client.addr then
    { cl with clientArr := cl.clientArr.set client.idx none }
  else cl

/-- Unlink the node at address `a`: the node, and the list without it. -/
def unlinkNode (a : ℕ) : List Client → Option (Client × List Client)
  | [] => none
  | c :: rest =>
    if c.addr = a then some (c, rest)
    else (unlinkNode a rest).map fun r => (r.1, c :: r.2)

/-- `client_list_delete`: `p` is any pointer; the list changes only when it is the
address of one of its nodes.
SOURCE: client_list.c:336-368 -/
def clientListDelete (p : Option ℕ) (cl : ClientList) : ClientList :=
  match p.bind fun a => unlinkNode a cl.firstclient with
  | none => cl
  | some (client, rest) =>
    let cl := clientListFreeNode client { cl with firstclient := rest }
    { cl with clientCount := cl.clientCount - 1 }

/-! ## Runs of the two operations -/

/-- A call that changes the list. -/
inductive ListCall
  | add (env : Arrival) (ip : Text)
  | delete (p : Option ℕ)

/-- One call. -/
def ListCall.run (maxclients : ℤ) (cl : ClientList) : ListCall → ClientList
  | .add env ip => (clientListAddClient maxclients env ip cl).2
  | .delete p => clientListDelete p cl

/-- The state after a sequence of calls on a fresh list. -/
def clientListRun (maxclients : ℤ) (calls : List ListCall) : ClientList :=
  calls.foldl (ListCall.run maxclients) (clientListInit maxclients)

end WifiCat
