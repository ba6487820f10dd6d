import WifiCat.Library.Transition
import WifiCat.Model.Daemon

/-!
# Shutdown while requests are served

`iptables_fw_destroy` runs on the thread that the signal found, without the lock of the
client list, so that the commands of other threads come between its own.  The threads share
the machine and take turns, a command at a time; requests may arrive at any time.
-/

set_option autoImplicit false

namespace WifiCat

open CommandProgram Netfilter

/-- The machine, the program that takes the firewall down, the chains it has emptied so far,
and the requests that other threads are serving. -/
structure Shutdown where
  host : Host
  destroyer : Program (Bool × Firewall)
  emptied : List (TableName × String) := []
  others : List (Program Unit) := []

/-- What can happen next: a command of the shutdown, a command of another thread, the arrival
of a request at a daemon in some state. -/
inductive Shutdown.Turn
  | destroyer
  | other (i : ℕ)
  | arrive (w : World) (request : Request)

/-- The chain that a command empties. -/
def emptiedBy : Event → List (TableName × String)
  | .execute (.iptables ⟨table, .flush chain⟩) => [(table, chain)]
  | _ => []

/-- One turn; `none` when a thread has nothing left to do. -/
def Shutdown.step (out : Outside) (p : Shutdown) : Shutdown.Turn → Option Shutdown
  | .destroyer =>
    match p.destroyer with
    | .done _ => none
    | .ask e k =>
      let answered := Host.answer out e p.host
      some { p with
        host := answered.2, destroyer := k answered.1, emptied := p.emptied ++ emptiedBy e }
  | .other i =>
    match p.others[i]? with
    | some (.ask e k) =>
      let answered := Host.answer out e p.host
      some { p with host := answered.2, others := p.others.set i (k answered.1) }
    | _ => none
  | .arrive w request =>
    some { p with others := p.others ++ [(serve w request) >>= fun _ => pure ()] }

/-- What `iptables_fw_destroy` has returned. -/
def Shutdown.returned (p : Shutdown) : Option (Bool × Firewall) :=
  match p.destroyer with
  | .done r => some r
  | .ask _ _ => none

/-- The command adds a rule to a chain. -/
def addsRule : IptablesOp → Bool
  | .append _ _ | .insert _ _ _ => true
  | _ => false

/-- The turn of a thread that adds a rule to a chain which the shutdown has emptied and not
deleted yet. -/
def Shutdown.refills (p : Shutdown) : Shutdown.Turn → Bool
  | .other i =>
    match p.others[i]? with
    | some (.ask (.execute (.iptables cmd)) _) =>
      addsRule cmd.op && decide ((cmd.table, cmd.op.chain) ∈ p.emptied) &&
        ((p.host.tables cmd.table).rules cmd.op.chain).isSome
    | _ => false
  | _ => false

end WifiCat
