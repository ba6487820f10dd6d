import WifiCat.Library.CommandProgram
import WifiCat.Library.Netfilter.Table
import WifiCat.Library.Scan

/-!
# Commands, and the machine they run on

The program changes the firewall by running `iptables`, `tc` and `ip` through `/bin/sh`.
A command is kept as the words the source formats into it: texts (an address, an
interface, a port) stay texts, and `read` is what `iptables` makes of them.  The source's
side is `iptablesDoCommand`; `Host` is the machine: the three tables, a count of the
commands run so far and the error lines logged.

What the machine does beyond that is an `Outside`: it may let any command fail, with any
exit status, at any time (`status`), and it prints the rules of a chain (`line`).  A
command it lets pass is carried out if the tables allow it, and fails otherwise.
-/

set_option autoImplicit false

namespace WifiCat

open Scan CommandProgram

/-! ## iptables commands -/

/-- The three tables. -/
inductive TableName
  | mangle | nat | filter
deriving DecidableEq, Repr

/-- Connection-tracking states, `-m state --state`. -/
inductive ConnState
  | INVALID | RELATED | ESTABLISHED
deriving DecidableEq, Repr

/-- Flags of a TCP header, `--tcp-flags`. -/
inductive TcpFlag
  | SYN | RST
deriving DecidableEq, Repr

/-- The conditions the source writes into rules. -/
inductive Match
  | inInterface (name : Text)
  | outInterface (name : Text)
  | source (mask : Text)
  | destination (mask : Text)
  | protocol (name : Text)
  | dport (port : Text)
  | macSource (mac : Text)
  | mark (value : BitVec 32) (mask : Option (BitVec 32))
  | state (states : List ConnState)
  | tcpFlags (mask comp : List TcpFlag)
  | notTcpOption (number : ℕ)
deriving DecidableEq, Repr

/-- The targets that decide about a packet. -/
inductive Verdict
  | ACCEPT
  | DROP
  | REJECT (rejectWith : Option String)
  | DNAT (address : Text) (port : ℕ)
deriving DecidableEq, Repr

/-- How a packet's mark is changed.
SOURCE: fw_iptables.c:67 -/
inductive MarkOp
  | orMark | setMark
deriving DecidableEq, Repr

/-- The targets a packet passes through; the number of a `MARK` target is what its
numeral denotes. -/
inductive Extension
  | MARK (op : MarkOp) (value : ℕ)
  | LOG
  | ULOG
  | TCPMSS (setMss : Option ℤ)
  | IMQ (todev : ℤ)
deriving DecidableEq, Repr

abbrev IptablesRule := Netfilter.Rule Match Verdict Extension
abbrev IptablesOp := Netfilter.Op Match Verdict Extension
abbrev IptablesCommand := Netfilter.Cmd TableName Match Verdict Extension
abbrev Tables := Netfilter.Tables TableName Match Verdict Extension

/-- The number written as `0x` followed by the `%x` of each number of the list. -/
def hexNumeral (ns : List ℕ) : ℕ := hexValue (ns.flatMap hexDigits)

/-- Six octets of one or two hexadecimal digits, separated by colons. -/
def isMacAddress (mac : Text) : Bool :=
  (fields ':' mac).length == 6 &&
    (fields ':' mac).all fun octet =>
      1 ≤ octet.length && octet.length ≤ 2 && octet.all isHexDigit

/-- A MAC address as `iptables` reads it: the letters of either case, a single digit as if
it had a leading zero. -/
def readMac (mac : Text) : Text :=
  unfields ':' <| (fields ':' mac).map fun octet =>
    List.replicate (2 - octet.length) '0' ++ octet.map Char.toLower

/-- A condition as `iptables` reads it. -/
def Match.read : Match → Match
  | .macSource mac => .macSource (readMac mac)
  | m => m

/-- A rule as `iptables` reads it. -/
def readRule (r : IptablesRule) : IptablesRule := { r with conds := r.conds.map Match.read }

/-- `iptables` can read a rule when its MAC addresses are MAC addresses and the mark it
sets has 32 bits. -/
def readable (r : IptablesRule) : Bool :=
  (r.conds.all fun m =>
    match m with
    | .macSource mac => isMacAddress mac
    | _ => true) &&
  match r.target with
  | .ext (.MARK _ value) => decide (value < 2 ^ 32)
  | _ => true

/-- What `iptables` does with a command: `none` when it refuses it. -/
def iptables (cmd : IptablesCommand) (ts : Tables) : Option Tables :=
  if cmd.op.rule.all readable then (cmd.mapRule readRule).apply ts else none

/-! ## tc and ip commands -/

/-- A rate, as `tc` takes it. -/
inductive TcRate
  | Mbps (n : ℤ)
  | kbit (n : ℤ)
deriving DecidableEq, Repr

/-- The commands `tc.c` runs.  `burst` and `cburst` are `none` when C leaves the number the
program computes for them undefined.
SOURCE: tc.c:80-267 -/
inductive TcCommand
  | qdiscAdd (dev : Text) (r2q : ℤ)
  | qdiscDel (dev : Text)
  | classAdd (dev : Text) (parent : Option ℤ) (classid : ℤ) (rate ceil : TcRate)
      (burst cburst : Option ℤ) (mtu : ℤ) (prio : Option ℤ)
  | classDel (dev : Text) (classid : ℤ)
  | filterAdd (dev : Text) (handle : ℕ) (flowid : ℤ)
  | linkSet (dev : Text) (up : Bool)
deriving DecidableEq, Repr

/-- A command line. -/
inductive Command
  | iptables (cmd : IptablesCommand)
  | tc (cmd : TcCommand)
deriving DecidableEq

/-! ## The program's side -/

/-- What the program asks of the machine: to run a command, to log a failed one, to list
a chain. -/
inductive Event
  | execute (cmd : Command)
  | logStatus (rc : BitVec 32) (cmd : IptablesCommand)
  | list (table : TableName) (chain : String)
deriving DecidableEq

/-- What the machine answers: an exit status, nothing, the lines of the listing. -/
abbrev Event.Answer : Event → Type
  | .execute _ => BitVec 32
  | .logStatus _ _ => Unit
  | .list _ _ => List Text

/-- A program that runs commands. -/
abbrev Program (α : Type) := Prog Event Event.Answer α

/-- `execute`.
SOURCE: util.c:94-159 -/
def execute (cmd : Command) : Program (BitVec 32) := Prog.question (Event.execute cmd)

/-- Run a command, and up to `n` times again while it reports a resource problem. -/
def executeRetrying (cmd : IptablesCommand) : ℕ → Program (BitVec 32)
  | 0 => execute (.iptables cmd)
  | n + 1 => do
    let rc ← execute (.iptables cmd)
    if rc = 4 then executeRetrying cmd n else pure rc

/-- `iptables_do_command`: at most five attempts, and an error line when the last one
fails, unless `fw_quiet` is set.
SOURCE: fw_iptables.c:154-188 -/
def iptablesDoCommand (fwQuiet : Bool) (cmd : IptablesCommand) : Program (BitVec 32) := do
  let rc ← executeRetrying cmd 4
  let _ ← (if !fwQuiet && rc != 0 then Prog.question (Event.logStatus rc cmd) else pure ())
  pure rc

/-- A sequence of statements `rc |= iptables_do_command(…)`. -/
def iptablesDoCommands (fwQuiet : Bool) (cmds : List IptablesCommand) : Program (BitVec 32) :=
  cmds.foldlM (fun rc cmd => do return rc ||| (← iptablesDoCommand fwQuiet cmd)) 0

/-! ## The machine's side -/

/-- The state of the machine. -/
structure Host where
  tables : Tables
  time : ℕ := 0
  complaints : List (BitVec 32 × IptablesCommand) := []

/-- How the machine behaves: the exit status it forces on a command (0 when it lets it
pass), and the line it prints for the rule of a given number. -/
structure Outside where
  status : ℕ → Command → BitVec 32
  line : ℕ → ℕ → IptablesRule → Text

/-- The machine's answer to what the program asks. -/
def Host.answer (out : Outside) : (e : Event) → Host → e.Answer × Host
  | .execute cmd, h =>
    let h' := { h with time := h.time + 1 }
    let rc := out.status h.time cmd
    if rc ≠ 0 then (rc, h')
    else
      match cmd with
      | .tc _ => (0, h')
      | .iptables c =>
        match iptables c h.tables with
        | some ts => (0, { h' with tables := ts })
        | none => (1, h')
  | .logStatus rc cmd, h => ((), { h with complaints := h.complaints ++ [(rc, cmd)] })
  | .list table chain, h =>
    (((h.tables table).rules chain).getD [] |>.mapIdx fun i r => out.line h.time (i + 1) r, h)

/-- The run of a program on a machine. -/
abbrev runOn (out : Outside) {α : Type} (p : Program α) (h : Host) : α × Host :=
  Prog.run (Host.answer out) p h

/-- No command has failed noisily so far. -/
def Host.clean (h : Host) : Prop := h.complaints = []

instance (h : Host) : Decidable h.clean := inferInstanceAs (Decidable (h.complaints = []))

end WifiCat
