import Mathlib.Data.Multiset.Filter
import WifiCat.Model.Daemon

/-!
# The devices of traffic control

What the commands of `tc.c` do to the intermediate devices: a device has the root qdisc or
not, classes and filters.  A command succeeds when the objects it needs are there, and is
refused otherwise; the rest of the machine is a `Host`.
-/

set_option autoImplicit false

namespace WifiCat

open Scan CommandProgram

/-- An intermediate device: whether its root qdisc is installed, the minor numbers of its
classes, the handles of its filters with the class each leads to. -/
structure TcDevice where
  root : Bool := false
  classes : Multiset ℤ := 0
  filters : Multiset (ℕ × ℤ) := 0
deriving DecidableEq

/-- The devices, by their names. -/
abbrev TcDevices := Text → TcDevice

/-- What a command does to the devices; `none` when it is refused.  A class without a parent
hangs from the root qdisc. -/
def TcCommand.apply (devices : TcDevices) : TcCommand → Option TcDevices
  | .qdiscAdd dev _ =>
    if (devices dev).root then none
    else some (Function.update devices dev { devices dev with root := true })
  | .qdiscDel dev => if (devices dev).root then some (Function.update devices dev {}) else none
  | .classAdd dev parent classid _ _ _ _ _ _ =>
    if (devices dev).root = true ∧ ∀ p ∈ parent, p ∈ (devices dev).classes then
      some (Function.update devices dev
        { devices dev with classes := classid ::ₘ (devices dev).classes })
    else none
  | .classDel dev classid =>
    if classid ∈ (devices dev).classes then
      some (Function.update devices dev
        { devices dev with classes := (devices dev).classes.erase classid })
    else none
  | .filterAdd dev handle flowid =>
    if (devices dev).root then
      some (Function.update devices dev
        { devices dev with filters := (handle, flowid) ::ₘ (devices dev).filters })
    else none
  | .linkSet _ _ => some devices

/-- A machine with its devices; `refused` are the `tc` commands that failed. -/
structure TcHost where
  host : Host
  devices : TcDevices := fun _ => {}
  refused : List TcCommand := []

/-- The machine's answer to what the program asks. -/
def TcHost.answer (out : Outside) : (e : Event) → TcHost → e.Answer × TcHost
  | .execute (.tc cmd), t =>
    match cmd.apply t.devices with
    | some devices => (0, { t with devices := devices })
    | none => (2, { t with refused := t.refused ++ [cmd] })
  | .execute (.iptables cmd), t =>
    let answered := Host.answer out (.execute (.iptables cmd)) t.host
    (answered.1, { t with host := answered.2 })
  | .logStatus rc cmd, t => ((), { t with host := (Host.answer out (.logStatus rc cmd) t.host).2 })
  | .list table chain, t =>
    let answered := Host.answer out (.list table chain) t.host
    (answered.1, { t with host := answered.2 })

/-- The run of a program on such a machine. -/
abbrev runTc (out : Outside) {α : Type} (p : Program α) (t : TcHost) : α × TcHost :=
  Prog.run (TcHost.answer out) p t

/-- The states that the daemon and its machine reach between two requests, when every
request is one that `ok` admits.  The devices start without a qdisc, as `tc_destroy_tc`
leaves them.
SOURCE: gateway.c:281-290 -/
inductive TcReach (out : Outside) (config : Config) (ok : World → Request → Prop) :
    World → TcHost → Prop
  | start (h : Host) (w : World) (t : TcHost)
      (hstart : runTc out (startDaemon config) { host := h } = ((0, w), t)) :
      TcReach out config ok w t
  | serve (w : World) (t : TcHost) (request : Request) (hreach : TcReach out config ok w t)
      (hok : ok w request) :
      TcReach out config ok (runTc out (serve w request) t).1 (runTc out (serve w request) t).2

end WifiCat
