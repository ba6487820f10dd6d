import WifiCat.Library.Buffer
import WifiCat.Model.Http

/-!
# The list of clients that `ndsctl` shows

`get_clients_text` prints the clients into a buffer on its stack, text after text, each at
the end of the string that is there (`Buffer.printNext`), and answers with that string.
-/

set_option autoImplicit false

namespace WifiCat

open Scan

/-- SOURCE: util.h:30 -/
def STATUS_BUF_SIZ : ℕ := 16384

/-- `fw_connection_state_as_string`.
SOURCE: firewall.c:202-210 -/
def fwConnectionStateAsString (fw : Firewall) (mark : BitVec 32) : Text :=
  if mark = fwMarkPreauthenticated then "Preauthenticated".toList
  else if mark = fw.fwMarkAuthenticated then "Authenticated".toList
  else if mark = fw.fwMarkTrusted then "Trusted".toList
  else if mark = fw.fwMarkBlocked then "Blocked".toList
  else "ERROR: unrecognized mark".toList

/-- A number as `%lu` and `%llu` print it. -/
def decimalUnsigned (n : BitVec 64) : Text := Nat.toDigits 10 n.toNat

/-- The line `key=value\n`; a value that is a string ends at its NUL. -/
def keyLine (key : String) (value : Text) : Text := key.toList ++ '=' :: cString value ++ ['\n']

/-- `now - client->added_time`, unsigned.
SOURCE: util.c:686, 697 -/
def duration (now : ℤ) (c : Client) : BitVec 64 := BitVec.ofInt 64 (now - c.addedTime)

/-- What is printed for the client with an index, print by print.  `speed` is how the C
library prints `((double)bytes)/125/durationsecs` with `%.6g`.
SOURCE: util.c:672-704 -/
def clientPrints (speed : BitVec 64 → BitVec 64 → Text) (now : ℤ) (fw : Firewall) (c : Client)
    (indx : ℕ) : List Text :=
  [keyLine "client_id" (decimal indx),
    keyLine "ip" c.ip ++ keyLine "mac" c.mac,
    keyLine "added" (decimal c.addedTime),
    keyLine "active" (decimal c.counters.lastUpdated),
    keyLine "duration" (decimalUnsigned (duration now c)),
    keyLine "token" (c.token.getD "none".toList),
    keyLine "state" (fwConnectionStateAsString fw c.fwConnectionState),
    keyLine "downloaded" (decimalUnsigned (c.counters.incoming / 1000)) ++
      keyLine "avg_down_speed" (speed c.counters.incoming (duration now c)) ++
      keyLine "uploaded" (decimalUnsigned (c.counters.outgoing / 1000)) ++
      keyLine "avg_up_speed" (speed c.counters.outgoing (duration now c)) ++ ['\n']]

/-- The buffer of `get_clients_text` after the prints, and the length that was measured last.
SOURCE: util.c:653-709 -/
def clientsBuffer (speed : BitVec 64 → BitVec 64 → Text) (now : ℤ) (input : RefreshInput)
    (w : World) (buffer : Buffer Char) : Buffer Char × ℕ :=
  let cl := (iptablesFwCountersUpdate input w.clients).2
  let s := (buffer, 0)
  let s := Buffer.printNext '\x00' s (decimal cl.clientCount ++ ['\n'])
  let s := if cl.firstclient = [] then s else Buffer.printNext '\x00' s ['\n']
  cl.firstclient.zipIdx.foldl
    (fun s c => Buffer.printAll '\x00' s (clientPrints speed now w.fw c.1 c.2)) s

/-- `get_clients_text`.
SOURCE: util.c:645-714 -/
def getClientsText (speed : BitVec 64 → BitVec 64 → Text) (now : ℤ) (input : RefreshInput)
    (w : World) (buffer : Buffer Char) : Text :=
  (clientsBuffer speed now input w buffer).1.string '\x00'

end WifiCat
