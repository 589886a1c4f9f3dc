import Mathlib

/-! The workload process and the signals of the guest's PID 1: `handle_signal` and
`forward_signal`, which run between any two steps of `main`, and what `kill` does to the
workload in each stage of its start. -/
namespace Machinen.Supervisor

inductive Sig where
  | term
  | int
  deriving DecidableEq

def Sig.number : Sig → Nat
  | .term => 15
  | .int => 2

structure Globals where
  workloadPid : Int := 0
  forwardToGroup : Bool := true
  pendingSignal : Option Sig := none
  deriving DecidableEq

inductive Stage where
  | store
  | read
  | group
  | process
  deriving DecidableEq

/-- A running `handle_signal` or `forward_signal`: the latter starts at `read`. -/
structure Call where
  sig : Sig
  stage : Stage
  deriving DecidableEq

/-- How far the child is on its way from `fork` to the program it executes. -/
inductive Start where
  | forked
  | termReset
  | intReset
  | session
  | executed
  deriving DecidableEq

/-- The child of `spawn_fresh` or `spawn_restore`, with its wait status once it has exited. -/
structure Workload where
  start : Start := .forked
  exited : Option Nat := none
  deriving DecidableEq

/-- The handler that came with `fork` is gone. -/
def Start.resets : Start → Sig → Bool
  | .forked, _ => false
  | .termReset, sig => sig == .term
  | _, _ => true

def Start.leads : Start → Bool
  | .session | .executed => true
  | _ => false

inductive Event where
  | arrived (sig : Sig) (forwardable : Bool)
  | delivered (sig : Sig)
  | swallowed (sig : Sig)
  | expired (sig : Sig)
  | exited
  | cleaned (status : Nat)
  deriving DecidableEq

/-- A signal reaches the workload. The inherited handler finds a `workload_pid` of zero, since
the child's copy is from before the store, and returns. -/
def Workload.deliver (w : Workload) (sig : Sig) : Workload × List Event :=
  if w.exited.isSome then (w, [.expired sig])
  else if w.start.resets sig then
    if w.start = .executed then (w, [.delivered sig])
    else ({ w with exited := some sig.number }, [.exited, .delivered sig])
  else (w, [.swallowed sig])

inductive WorkloadAction where
  | proceed (ok : Bool)
  | exit (status : Nat)
  deriving DecidableEq

/-- `_exit` in the child: the code is in the second byte of the wait status. -/
def exitStatus (code : Nat) : Nat := code % 256 * 256

def Workload.step (w : Workload) (a : WorkloadAction) : Option Workload :=
  if w.exited.isSome then none
  else match a, w.start with
    | .proceed _, .forked => some { w with start := .termReset }
    | .proceed _, .termReset => some { w with start := .intReset }
    | .proceed ok, .intReset =>
      some (if ok then { w with start := .session } else { w with exited := some (exitStatus 126) })
    | .proceed ok, .session =>
      some (if ok then { w with start := .executed } else { w with exited := some (exitStatus 127) })
    | .proceed _, .executed => none
    | .exit status, .executed => some { w with exited := some status }
    | .exit _, _ => none

def waitStatusCode (status : Nat) : Nat :=
  if status % 128 = 0 then status / 256 % 256 else 128 + status % 128

end Machinen.Supervisor
