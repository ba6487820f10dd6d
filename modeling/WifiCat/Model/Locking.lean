import Mathlib.Data.Fintype.Basic
import WifiCat.Library.LockOrder
import WifiCat.Library.Transition
import WifiCat.Model.NdsctlThread

/-!
# What the threads do to the mutexes

Each function that takes `client_list_mutex` or `config_mutex`, or calls one that does, as the
code of its locking: where the source branches on data, a choice; where it repeats, a loop.
The process is its threads and `sigterm_mutex`, which the termination handler tries and never
waits for.
-/

set_option autoImplicit false

namespace WifiCat.Locking

open LockOrder

/-- The mutexes that threads wait for. -/
inductive Mutex
  | client_list_mutex
  | config_mutex
deriving DecidableEq, Repr

/-- Statements in sequence. -/
def block (codes : List (Code Mutex)) : Code Mutex := codes.foldr .seq .skip

/-- A statement that may be left out. -/
def maybe (c : Code Mutex) : Code Mutex := .choice c .skip

/-- A section that holds a mutex from its first to its last step. -/
def holding (m : Mutex) (body : Code Mutex) : Code Mutex :=
  block [.lock m, body, .unlock m]

/-! ## Functions of the firewall -/

/-- `iptables_fw_destroy`; `fw_destroy` only calls it.
SOURCE: fw_iptables.c:611-684, firewall.c:135-140 -/
def iptablesFwDestroy : Code Mutex := holding .config_mutex .skip

/-- `iptables_fw_init`; `fw_init` only calls it.
SOURCE: fw_iptables.c:316-604, firewall.c:122-128 -/
def iptablesFwInit : Code Mutex := holding .config_mutex .skip

/-- `iptables_fw_access`.
SOURCE: fw_iptables.c:747-814 -/
def iptablesFwAccess : Code Mutex := holding .config_mutex .skip

/-- `iptables_fw_counters_update`: the client list is locked for each line that counts.
SOURCE: fw_iptables.c:880-971 -/
def iptablesFwCountersUpdate : Code Mutex :=
  block [.loop (holding .client_list_mutex .skip), .loop (holding .client_list_mutex .skip)]

/-- `fw_refresh_client_list`.
SOURCE: firewall.c:146-199 -/
def fwRefreshClientList : Code Mutex :=
  block [iptablesFwCountersUpdate,
    maybe (holding .client_list_mutex (.loop (maybe iptablesFwAccess)))]

/-- `auth_client_action`, which returns early when the client is not on the list.
SOURCE: auth.c:93-134 -/
def authClientAction : Code Mutex :=
  block [.lock .client_list_mutex,
    .choice (.unlock .client_list_mutex)
      (block [maybe iptablesFwAccess, .unlock .client_list_mutex])]

/-! ## The web server -/

/-- `http_nodogsplash_add_client`.
SOURCE: http.c:406-414 -/
def httpAddClient : Code Mutex := holding .client_list_mutex .skip

/-- `http_nodogsplash_callback_action`.
SOURCE: http.c:242-351 -/
def httpCallbackAction : Code Mutex :=
  maybe (block [holding .client_list_mutex .skip, maybe authClientAction])

/-- `http_nodogsplash_callback_auth`.
SOURCE: http.c:365-383 -/
def httpCallbackAuth : Code Mutex := block [httpAddClient, maybe httpCallbackAction]

/-- `http_nodogsplash_callback_deny`.
SOURCE: http.c:386-395 -/
def httpCallbackDeny : Code Mutex := httpCallbackAction

/-- `http_nodogsplash_first_contact`.
SOURCE: http.c:159-199 -/
def httpFirstContact : Code Mutex := maybe httpAddClient

/-- `http_nodogsplash_check_userpass`.
SOURCE: http.c:709-774 -/
def httpCheckUserpass : Code Mutex := maybe (holding .client_list_mutex .skip)

/-! ## The control socket -/

/-- `get_status_text` and `get_clients_text`.
SOURCE: util.c:395-639, 645-714 -/
def getStatusText : Code Mutex :=
  block [iptablesFwCountersUpdate, holding .client_list_mutex .skip]

/-- `ndsctl_auth` and `ndsctl_deauth`.
SOURCE: ndsctl_thread.c:278-344 -/
def ndsctlAuth : Code Mutex :=
  block [.lock .client_list_mutex,
    .choice (.unlock .client_list_mutex) (block [.unlock .client_list_mutex, authClientAction])]

/-- The function that a request leads to.
SOURCE: ndsctl_thread.c:240-523 -/
def ndsctl : NdsctlHandler → Code Mutex
  | .status | .clients => getStatusText
  | .stop => .skip
  | .mac _ | .loglevel | .password | .username => holding .config_mutex .skip
  | .auth | .deauth => ndsctlAuth

/-! ## Threads -/

/-- `main_loop`: the firewall is reset, and the process ends when it cannot be set up.
SOURCE: gateway.c:281-290 -/
def startUp : Code Mutex :=
  block [iptablesFwDestroy, iptablesFwInit, maybe (block [iptablesFwDestroy, .exit])]

/-- `termination_handler` behind its first test.
SOURCE: gateway.c:140-154 -/
def terminationHandler : Code Mutex := block [iptablesFwDestroy, .exit]

/-- What a thread may have been started for. -/
inductive EntryPoint
  | startUp
  | thread_client_timeout_check
  | first_contact
  | callback_auth
  | callback_deny
  | check_userpass
  | ndsctl (handler : NdsctlHandler)
deriving DecidableEq, Repr

/-- The code of a thread; the timer refreshes the client list again and again.
SOURCE: auth.c:62-89 -/
def EntryPoint.code : EntryPoint → Code Mutex
  | .startUp => Locking.startUp
  | .thread_client_timeout_check => .loop fwRefreshClientList
  | .first_contact => httpFirstContact
  | .callback_auth => httpCallbackAuth
  | .callback_deny => httpCallbackDeny
  | .check_userpass => httpCheckUserpass
  | .ndsctl handler => Locking.ndsctl handler

/-- The process with `n` threads; `sigterm_mutex` is set once a termination handler has
begun. -/
structure Process (n : ℕ) where
  threads : Fin n → Thread Mutex
  sigterm_mutex : Bool := false
  running : Bool := true

/-- What can happen next: a thread makes a step, or a signal to terminate is handled on it.
A call of `termination_handler` by the program itself is a signal at that point. -/
inductive Event (n : ℕ)
  | run (i : Fin n) (turn : Bool)
  | signal (i : Fin n)

variable {n : ℕ}

/-- No thread holds the mutex. -/
def Process.Free (p : Process n) (m : Mutex) : Prop := ∀ i, m ∉ (p.threads i).held

instance (p : Process n) : DecidablePred p.Free := fun m => by
  unfold Process.Free
  infer_instance

/-- A thread moves on. -/
def Process.setThread (p : Process n) (i : Fin n) (t : Thread Mutex) : Process n :=
  { p with threads := Function.update p.threads i t }

/-- The step of a thread; `exit` ends them all. -/
def Process.runStep (p : Process n) (i : Fin n) (turn : Bool) : Option (Process n) :=
  match (p.threads i).code with
  | .exit :: _ => some { p with threads := fun _ => {}, running := false }
  | _ => ((p.threads i).step p.Free turn).map (p.setThread i)

/-- The termination handler on a thread: the first one runs before anything else of the
thread, any other ends the thread, with the mutexes it holds.
SOURCE: gateway.c:125-155 -/
def Process.signal (p : Process n) (i : Fin n) : Option (Process n) :=
  let t := p.threads i
  if t.code = [] then none
  else if p.sigterm_mutex then some (p.setThread i { t with code := [] })
  else some { p.setThread i { t with code := terminationHandler :: t.code } with
    sigterm_mutex := true }

/-- One step; `none` when the event is not possible. -/
def Process.step (p : Process n) : Event n → Option (Process n)
  | .run i turn => if p.running then p.runStep i turn else none
  | .signal i => if p.running then p.signal i else none

/-- Every thread is about to begin. -/
def started (p : Process n) : Prop :=
  ∃ entry : Fin n → EntryPoint, p = { threads := fun i => { code := [(entry i).code] } }

end WifiCat.Locking
