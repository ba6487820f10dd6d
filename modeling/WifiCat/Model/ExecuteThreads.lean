import Mathlib.Data.Fintype.Basic
import WifiCat.Library.Transition

/-!
# Threads in execute()

`execute` changes the disposition of `SIGCHLD`, which belongs to the process, forks, waits
for its child and puts the old disposition back.  The state is what the threads share (the
disposition and a signal not yet delivered) and how far each call is; a child belongs to the
call that forked it.  The handler reaps any one child that has exited.
-/

set_option autoImplicit false

namespace WifiCat.Signals

/-- What the process does on `SIGCHLD`. -/
inductive Disposition
  | SIG_DFL
  | sigchld_handler
deriving DecidableEq, Repr

/-- How a child ends. -/
inductive ExitStatus
  | exited (status : ℤ)
  | signaled (signal : ℕ)
deriving DecidableEq, Repr

/-- The value `execute` makes of it.
SOURCE: util.c:141-148 -/
def ExitStatus.retval : ExitStatus → ℤ
  | .exited status => status
  | .signaled _ => -1

/-- A child of the process. -/
inductive Child
  | running
  | zombie (status : ExitStatus)
  | reaped (status : ExitStatus)
deriving DecidableEq, Repr

/-- How far a call of `execute` is: the disposition it saved, its child, the value it will
return. -/
inductive Call
  | idle
  | defaulted (oldsa : Disposition)
  | forked (oldsa : Disposition) (child : Child)
  | waited (oldsa : Disposition) (status : ExitStatus) (retval : ℤ)
deriving DecidableEq, Repr

/-- The disposition that a call in progress will restore. -/
def Call.oldsa : Call → Option Disposition
  | .idle => none
  | .defaulted oldsa | .forked oldsa _ | .waited oldsa _ _ => some oldsa

/-- The child of the call has exited and nobody has waited for it. -/
def Call.hasZombie : Call → Bool
  | .forked _ (.zombie _) => true
  | _ => false

/-- The process with `n` threads; `handling` counts the runs of the handler that have not
reached their `waitpid` yet, `returned` keeps how the children of the finished calls ended
and what the calls returned. -/
structure Process (n : ℕ) where
  disposition : Disposition := .sigchld_handler
  pending : Bool := false
  handling : ℕ := 0
  call : Fin n → Call := fun _ => .idle
  returned : List (ExitStatus × ℤ) := []

/-- What can happen next. -/
inductive Event (n : ℕ)
  | saveAndDefault (i : Fin n)
  | fork (i : Fin n)
  | childExit (i : Fin n) (status : ExitStatus)
  | deliver
  | reap (victim : Option (Fin n))
  | waitpid (i : Fin n)
  | restore (i : Fin n)

variable {n : ℕ}

/-- The call of a thread moves on. -/
def Process.setCall (p : Process n) (i : Fin n) (c : Call) : Process n :=
  { p with call := Function.update p.call i c }

@[simp]
theorem Process.setCall_self (p : Process n) (i : Fin n) (c : Call) :
    (p.setCall i c).call i = c := by
  show Function.update p.call i c i = c
  rw [Function.update_self]

@[simp]
theorem Process.setCall_of_ne (p : Process n) {i j : Fin n} (c : Call) (h : j ≠ i) :
    (p.setCall i c).call j = p.call j := by
  show Function.update p.call i c j = p.call j
  rw [Function.update_of_ne h]

/-- `sigaction`: setting `SIG_DFL` discards a signal that is pending. -/
def Process.sigaction (p : Process n) (d : Disposition) : Process n :=
  { p with disposition := d, pending := p.pending && d != .SIG_DFL }

/-- One step; `none` when the event is not possible.  `waitpid` on a child that the handler
has reaped finds no child, and the call takes that for a normal exit.
SOURCE: util.c:94-159, gateway.c:90-121 -/
def Process.step (p : Process n) : Event n → Option (Process n)
  | .saveAndDefault i =>
    match p.call i with
    | .idle => some ((p.setCall i (.defaulted p.disposition)).sigaction .SIG_DFL)
    | _ => none
  | .fork i =>
    match p.call i with
    | .defaulted oldsa => some (p.setCall i (.forked oldsa .running))
    | _ => none
  | .childExit i status =>
    match p.call i with
    | .forked oldsa .running =>
      some { p.setCall i (.forked oldsa (.zombie status)) with
        pending := p.pending || p.disposition == .sigchld_handler }
    | _ => none
  | .deliver =>
    if p.pending && p.disposition == .sigchld_handler then
      some { p with pending := false, handling := p.handling + 1 }
    else none
  | .reap (some i) =>
    match p.call i, p.handling with
    | .forked oldsa (.zombie status), k + 1 =>
      some { p.setCall i (.forked oldsa (.reaped status)) with handling := k }
    | _, _ => none
  | .reap none =>
    if 0 < p.handling ∧ ∀ i, (p.call i).hasZombie = false then
      some { p with handling := p.handling - 1 }
    else none
  | .waitpid i =>
    match p.call i with
    | .forked oldsa (.zombie status) => some (p.setCall i (.waited oldsa status status.retval))
    | .forked oldsa (.reaped status) => some (p.setCall i (.waited oldsa status 0))
    | _ => none
  | .restore i =>
    match p.call i with
    | .waited oldsa status retval =>
      some { (p.setCall i .idle).sigaction oldsa with
        returned := p.returned ++ [(status, retval)] }
    | _ => none

end WifiCat.Signals
