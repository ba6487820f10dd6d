import WifiCat.Library.Netfilter.Traversal
import WifiCat.Model.FwIptables

/-!
# Packets

What the conditions of the portal's rules say about a packet.  The texts of a rule (an
address mask, a protocol, a port) are read by a `Reading`, over headers of any type; a
packet's source MAC address is the text of its six octets, with two digits each.  The
only part of a packet the portal changes is its 32-bit mark.
-/

set_option autoImplicit false

namespace WifiCat

open Scan Netfilter

/-- Six colon-separated octets of two hexadecimal digits. -/
def isTwoDigitMac (mac : Text) : Bool :=
  (fields ':' mac).length == 6 &&
    (fields ':' mac).all fun octet => octet.length == 2 && octet.all isHexDigit

/-- A MAC address, as the text of its octets. -/
abbrev MacText := {mac : Text // isTwoDigitMac mac = true}

/-- How the headers of packets are read. -/
structure Reading (H : Type) where
  inInterface : Text → H → Bool
  outInterface : Text → H → Bool
  source : Text → H → Bool
  destination : Text → H → Bool
  protocol : Text → H → Bool
  dport : Text → H → Bool
  srcMac : H → MacText
  state : ConnState → H → Bool
  tcpFlags : List TcpFlag → List TcpFlag → H → Bool
  tcpOption : ℕ → H → Bool

/-- A packet: its header and its mark. -/
structure Packet (H : Type) where
  header : H
  mark : BitVec 32

variable {H : Type}

/-- The test `--mark value` or `--mark value/mask`. -/
def markMatches (value : BitVec 32) (mask : Option (BitVec 32)) (mark : BitVec 32) : Bool :=
  match mask with
  | none => mark == value
  | some m => mark &&& m == value

/-- The packet satisfies a condition. -/
def Reading.sat (R : Reading H) : Match → Packet H → Bool
  | .inInterface name, p => R.inInterface name p.header
  | .outInterface name, p => R.outInterface name p.header
  | .source mask, p => R.source mask p.header
  | .destination mask, p => R.destination mask p.header
  | .protocol name, p => R.protocol name p.header
  | .dport port, p => R.dport port p.header
  | .macSource mac, p => readMac (R.srcMac p.header).val == mac
  | .mark value mask, p => markMatches value mask p.mark
  | .state states, p => states.any fun s => R.state s p.header
  | .tcpFlags mask comp, p => R.tcpFlags mask comp p.header
  | .notTcpOption number, p => !R.tcpOption number p.header

/-- Packets of which only the source MAC address is told apart: all of them come in on the
gateway's interface, from any address, and belong to no connection. -/
def macReading : Reading MacText where
  inInterface _ _ := true
  outInterface _ _ := false
  source _ _ := true
  destination _ _ := true
  protocol _ _ := true
  dport _ _ := false
  srcMac := id
  state _ _ := false
  tcpFlags _ _ _ := false
  tcpOption _ _ := false

/-- What setting a mark does to the mark. -/
def MarkOp.apply (op : MarkOp) (value mark : BitVec 32) : BitVec 32 :=
  match op with
  | .orMark => mark ||| value
  | .setMark => value

/-- What a target the packet passes through does to it. -/
def Extension.run : Extension → Packet H → Packet H
  | .MARK op value, p => { p with mark := op.apply (BitVec.ofNat 32 value) p.mark }
  | _, p => p

/-- The semantics of the portal's rules. -/
def Reading.semantics (R : Reading H) : Semantics Match Extension (Packet H) where
  sat := R.sat
  run := Extension.run

/-- Run a chain of a table on a packet, following two levels of jumps. -/
def runTable (R : Reading H) (ts : Tables) (table : TableName) (chain : String) (p : Packet H) :
    Outcome Verdict (Packet H) :=
  runChain R.semantics (ts table) 3 chain p

/-- The mark a packet has after the first `n` rules of mangle `PREROUTING`. -/
def preroutingMark (R : Reading H) (ts : Tables) (n : ℕ) (p : Packet H) : BitVec 32 :=
  (walk R.semantics (runTable R ts .mangle)
    ((((ts .mangle).rules "PREROUTING").getD []).take n) p).packet.mark

end WifiCat
