import WifiCat.Model.Conf
import WifiCat.Model.Execute

/-!
# Traffic control

`tc.c`: the queueing disciplines on the two intermediate devices and the class and
filter of each client.  `tc_quiet` only closes the standard error of the commands and is
not modelled.  A product that does not fit an `int` is undefined (`intProduct`), and compilers
use it: they compute `limit * 1000 / 8` as `limit * 125`.  Division goes towards zero.
-/

set_option autoImplicit false

namespace WifiCat

open Scan CommandProgram

/-- A number stored into an `int`. -/
def int32 (n : ℤ) : ℤ := n.bmod (2 ^ 32)

/-- SOURCE: tc.h -/
def MTU : ℤ := 1500
/-- SOURCE: tc.h -/
def HZ : ℤ := 100

/-- SOURCE: fw_iptables.h:39 -/
def CHAIN_OUTGOING : String := "ndsOUT"
/-- SOURCE: fw_iptables.h:40 -/
def CHAIN_INCOMING : String := "ndsINC"

/-- The name of an intermediate device, `imq%d`. -/
def imqName (n : ℤ) : Text := "imq".toList ++ (toString n).toList

/-- `tc_do_command`.
SOURCE: tc.c:55-78 -/
def tcDoCommand (cmd : TcCommand) : Program (BitVec 32) := execute (.tc cmd)

/-- A sequence of statements `rc |= tc_do_command(…)`. -/
def tcDoCommands (cmds : List TcCommand) : Program (BitVec 32) :=
  cmds.foldlM (fun rc cmd => do return rc ||| (← tcDoCommand cmd)) 0

/-- The product of two `int`s; `none` when it does not fit and C gives it no value. -/
def intProduct (a b : ℤ) : Option ℤ :=
  if -2 ^ 31 ≤ a * b ∧ a * b < 2 ^ 31 then some (a * b) else none

/-- A burst of at least one packet. -/
def packetBurst (burst : ℤ) : ℤ :=
  let mtu := MTU + 40
  if burst < mtu then mtu else burst

/-- The burst of a rate limit in bytes, at least one packet.
SOURCE: tc.c:88-89, 98-99, 133-134, 158-159 -/
def tcBurst (limit : ℤ) : Option ℤ :=
  (intProduct limit 1000).map fun bits => packetBurst ((bits.tdiv 8).tdiv HZ)

/-- The number `burst*10` of the commands.
SOURCE: tc.c:92, 102, 138, 140, 163, 165 -/
def tcBurst10 (limit : ℤ) : Option ℤ := (tcBurst limit).bind (intProduct · 10)

/-- A class of the given limit under class 1:1, at priority 1. -/
def tcClassAdd (dev : Text) (classid limit : ℤ) : TcCommand :=
  .classAdd dev (some 1) classid (.kbit limit) (.kbit limit) (tcBurst10 limit) (tcBurst limit)
    (MTU + 40) (some 1)

/-- `tc_attach_client`.
SOURCE: tc.c:80-107 -/
def tcAttachClient (downDev : Text) (downloadLimit : ℤ) (upDev : Text) (uploadLimit : ℤ)
    (idx : ℕ) (fwMark : BitVec 32) : Program (BitVec 32) :=
  tcDoCommands
    [tcClassAdd downDev (idx + 10) downloadLimit,
      .filterAdd downDev (hexNumeral [idx + 10, fwMark.toNat]) (idx + 10),
      tcClassAdd upDev (idx + 10) uploadLimit,
      .filterAdd upDev (hexNumeral [idx + 10, fwMark.toNat]) (idx + 10)]

/-- `tc_detach_client`.
SOURCE: tc.c:109-118 -/
def tcDetachClient (downDev upDev : Text) (idx : ℕ) : Program (BitVec 32) :=
  tcDoCommands [.classDel downDev (idx + 10), .classDel upDev (idx + 10)]

/-- The common body of `tc_attach_upload_qdisc` and `tc_attach_download_qdisc`.
SOURCE: tc.c:126-143, 151-168 -/
def tcAttachQdisc (dev : Text) (limit : ℤ) : Program (BitVec 32) :=
  tcDoCommands
    [.qdiscAdd dev 1700,
      .classAdd dev none 1 (.Mbps 100) (.Mbps 100) (tcBurst10 limit) (tcBurst limit) (MTU + 40)
        none,
      tcClassAdd dev 2 limit]

/-- SOURCE: tc.c:126-143 -/
def tcAttachUploadQdisc : Text → ℤ → Program (BitVec 32) := tcAttachQdisc
/-- SOURCE: tc.c:151-168 -/
def tcAttachDownloadQdisc : Text → ℤ → Program (BitVec 32) := tcAttachQdisc

/-- The download half of `tc_init_tc`: a device that cannot be set up is only logged.
SOURCE: tc.c:195-208 -/
def tcInitDownload (fwQuiet : Bool) (config : Config) : Program (BitVec 32) :=
  if config.downloadLimit > 0 then do
    let ret ← execute (.tc (.linkSet (imqName config.downloadImq) true))
    if ret ≠ 0 then pure 0
    else
      let rc₁ ← iptablesDoCommand fwQuiet
        ⟨.mangle, .append CHAIN_INCOMING ⟨[], .ext (.IMQ config.downloadImq)⟩⟩
      let rc₂ ← tcAttachDownloadQdisc (imqName config.downloadImq) config.downloadLimit
      pure (rc₁ ||| rc₂)
  else pure 0

/-- The upload half of `tc_init_tc`: after a device that cannot be set up the return code
is -1.
SOURCE: tc.c:209-223 -/
def tcInitUpload (fwQuiet : Bool) (config : Config) (rc : BitVec 32) : Program (BitVec 32) :=
  if config.uploadLimit > 0 then do
    let ret ← execute (.tc (.linkSet (imqName config.uploadImq) true))
    if ret ≠ 0 then pure (-1)
    else
      let rc₁ ← iptablesDoCommand fwQuiet
        ⟨.mangle, .append CHAIN_OUTGOING ⟨[], .ext (.IMQ config.uploadImq)⟩⟩
      let rc₂ ← tcAttachUploadQdisc (imqName config.uploadImq) config.uploadLimit
      pure (rc ||| rc₁ ||| rc₂)
  else pure rc

/-- `tc_init_tc`.
SOURCE: tc.c:175-228 -/
def tcInitTc (fwQuiet : Bool) (config : Config) : Program (BitVec 32) := do
  let rc ← tcInitDownload fwQuiet config
  tcInitUpload fwQuiet config rc

/-- `tc_destroy_tc`.
SOURCE: tc.c:234-267 -/
def tcDestroyTc (config : Config) : Program (BitVec 32) :=
  tcDoCommands
    [.qdiscDel (imqName config.downloadImq), .qdiscDel (imqName config.uploadImq),
      .linkSet (imqName config.downloadImq) false, .linkSet (imqName config.uploadImq) false]

end WifiCat
