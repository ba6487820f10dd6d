import WifiCat.Library.Fscanf
import WifiCat.Model.Firewall

/-!
# The listings the counters are read from

`iptables_fw_counters_update` reads the output of `iptables -v -n -x -t mangle -L` with
`fscanf`: `counterLines` are the lines from which it gets all three variables.  `ListsRules`
says which texts list which rules: `iptables` shows a rule in nine columns, of which the
second is its byte count, the third its target and the last two its addresses.
-/

set_option autoImplicit false

namespace WifiCat

open Scan

/-! ## The program's side -/

/-- `fscanf(output, "%*s %llu %s %*s … %*s %15[0-9.]", &counter, target, ip)`, with the
number of words skipped after the target: four for `ndsOUT`, five for `ndsINC`.
SOURCE: fw_iptables.c:906, 945 -/
def counterEntry (skipped : ℕ) : Directive CounterLine := do
  Directive.skipWord
  let counter ← Directive.unsigned64
  let target ← Directive.word
  Directive.skipWords skipped
  Directive.blanks
  let ip ← Directive.bounded 15 isIpChar
  return { counter := counter, target := target, ip := ip }

/-- The loop over the entries; a round ends behind the line it stopped in.
SOURCE: fw_iptables.c:905-908, 944-947 -/
def counterLoop (skipped : ℕ) : ℕ → Text → List CounterLine
  | 0, _ => []
  | _ + 1, [] => []
  | n + 1, s =>
    match counterEntry skipped s with
    | .ok (line, s) => line :: counterLoop skipped n (restOfLine s)
    | .error s => counterLoop skipped n (restOfLine s)

/-- The lines read from a listing, behind its first two.
SOURCE: fw_iptables.c:901-908, 940-947 -/
def counterLines (skipped : ℕ) (output : Text) : List CounterLine :=
  counterLoop skipped output.length (restOfLine (restOfLine output))

/-! ## The machine's side -/

/-- A rule of a chain and the bytes it has counted. -/
structure ListedRule where
  rule : IptablesRule
  bytes : BitVec 64
deriving DecidableEq

/-- The byte count as a number. -/
def ListedRule.count (row : ListedRule) : ℕ := row.bytes.toNat

/-- The target as it is listed. -/
def targetColumn (r : IptablesRule) : Text :=
  match r.target with
  | .verdict .ACCEPT => "ACCEPT".toList
  | .verdict .DROP => "DROP".toList
  | .verdict (.REJECT _) => "REJECT".toList
  | .verdict (.DNAT _ _) => "DNAT".toList
  | .ret => "RETURN".toList
  | .jump chain => chain.toList
  | .ext (.MARK _ _) => "MARK".toList
  | .ext .LOG => "LOG".toList
  | .ext .ULOG => "ULOG".toList
  | .ext (.TCPMSS _) => "TCPMSS".toList
  | .ext (.IMQ _) => "IMQ".toList

/-- The source address as it is listed. -/
def sourceColumn (r : IptablesRule) : Text :=
  (r.conds.findSome? fun m =>
    match m with
    | .source mask => some mask
    | _ => none).getD "0.0.0.0/0".toList

/-- The destination address as it is listed. -/
def destinationColumn (r : IptablesRule) : Text :=
  (r.conds.findSome? fun m =>
    match m with
    | .destination mask => some mask
    | _ => none).getD "0.0.0.0/0".toList

/-- The columns of a rule: packets, bytes, target, protocol, options, interfaces, source and
destination; the numbers are the padding. -/
def ListedRule.columns (row : ListedRule) (pad : ℕ → ℕ) (pkts prot opt ifIn ifOut : Text) :
    List (ℕ × Text) :=
  [(pad 0, pkts), (pad 1, Nat.toDigits 10 row.bytes.toNat), (pad 2, targetColumn row.rule),
    (pad 3, prot), (pad 4, opt), (pad 5, ifIn), (pad 6, ifOut), (pad 7, sourceColumn row.rule),
    (pad 8, destinationColumn row.rule)]

/-- A line that shows a rule: its columns, and whatever `iptables` adds to them. -/
inductive Shows (row : ListedRule) : Text → Prop
  | line (pad : ℕ → ℕ) (pkts prot opt ifIn ifOut rest : Text)
      (words : ∀ column ∈ row.columns pad pkts prot opt ifIn ifOut, IsWord column.2)
      (oneLine : '\n' ∉ rest) :
      Shows row (printColumns (row.columns pad pkts prot opt ifIn ifOut) ++ rest)

/-- A text that lists rules: two lines of headings, and a line for each rule. -/
def ListsRules (output : Text) (rows : List ListedRule) : Prop :=
  ∃ heading₁ heading₂ lines, '\n' ∉ heading₁ ∧ '\n' ∉ heading₂ ∧ List.Forall₂ Shows rows lines ∧
    output = heading₁ ++ '\n' :: (heading₂ ++ '\n' :: lines.flatMap (· ++ ['\n']))

end WifiCat
