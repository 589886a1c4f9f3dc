import Machinen.Supervisor.Signals
import Machinen.Lib.Run

/-! The supervisor from the installation of its handlers to `power_off`: one step is one store
or one system call, whose result is the kernel's. -/
namespace Machinen.Supervisor

/-- What `main` was started with. -/
structure Boot where
  restoreMode : Bool := false
  hasCommand : Bool := true
  winsizeAgent : Bool := false
  deriving DecidableEq

/-- Where `main` stands; `status` is the workload's and `cleanup` the first failure so far. -/
inductive Pc where
  | spawnAgent
  | spawnWinsize
  | spawnWorkload
  | storePid (child : Int)
  | storeGroup (child : Int)
  | checkPending (child : Int)
  | loadPending (child : Int)
  | forward (call : Call) (child : Int)
  | waitWorkload (child : Int)
  | killGroup (child : Int) (status : Nat)
  | clearPid (status : Nat)
  | findScript (status : Nat)
  | forkSync (status : Nat)
  | waitSync (status : Nat) (pid : Int)
  | removeScript (status : Nat)
  | stopSidecars (status cleanup : Nat) (pids : List Int)
  | probeSidecar (status cleanup : Nat) (pids : List Int)
  | powerOff (retained : Nat)
  | trapped
  deriving DecidableEq

structure State where
  globals : Globals := {}
  handlers : List Call := []
  pc : Pc := .spawnAgent
  agentPid : Int := 0
  winsizePid : Int := 0
  workload : Option Workload := none
  syncRuns : Nat := 0
  log : List Event := []
  deriving DecidableEq

inductive Outcome where
  | returned (result : Int)
  | reaped (pid : Int) (status : Nat)
  | interrupted
  deriving DecidableEq

inductive Action where
  | arrive (sig : Sig)
  | advance (outcome : Outcome)
  | workload (a : WorkloadAction)
  deriving DecidableEq

/-- `fork` in the parent. -/
def Forked (result : Int) : Prop := result = -1 ∨ 0 < result

instance (result : Int) : Decidable (Forked result) := inferInstanceAs (Decidable (_ ∨ _))

def State.deliver (s : State) (sig : Sig) : State :=
  match s.workload with
  | none => s
  | some w =>
    let (w, events) := w.deliver sig
    { s with workload := some w, log := events ++ s.log }

/-- A signal for a workload that has exited: `kill` finds a zombie or nothing. -/
def State.expire (s : State) (sig : Sig) : State :=
  if s.workload.any fun w => w.exited.isSome then { s with log := .expired sig :: s.log } else s

/-- One step of a running call: what is left of it, and the state. The group of the workload is
there once the child leads a session. -/
def forwardStep (s : State) (call : Call) (outcome : Outcome) : Option (Option Call × State) :=
  match call.stage, outcome with
  | .store, .returned _ =>
    some (some { call with stage := .read },
      { s with globals := { s.globals with pendingSignal := some call.sig } })
  | .read, .returned _ =>
    some (if s.globals.workloadPid ≤ 0 then none
      else some { call with stage := if s.globals.forwardToGroup then .group else .process }, s)
  | .group, .returned result =>
    if result = 0 then
      if s.workload.any fun w => w.start.leads then some (none, s.deliver call.sig) else none
    else some (some { call with stage := .process }, s)
  | .process, .returned result => some (none, if result = 0 then s.deliver call.sig else s.expire call.sig)
  | _, _ => none

/-- `finish_cleanup` keeps the first failure. -/
def keepFirst (cleanup status : Nat) : Nat := if cleanup = 0 ∧ status ≠ 0 then status else cleanup

def chooseRetainedStatus (workload cleanup : Nat) : Nat := if workload ≠ 0 then workload else cleanup

def State.synced (s : State) (status result : Nat) : State :=
  { s with pc := .stopSidecars status result [s.winsizePid, s.agentPid], log := .cleaned result :: s.log }

def State.stopped (s : State) (status cleanup : Nat) (pids : List Int) (result : Nat) : State :=
  { s with pc := .stopSidecars status (keepFirst cleanup result) pids, log := .cleaned result :: s.log }

/-- Where `main` goes when a call of its own is over or not. -/
def Pc.afterForward (child : Int) : Option Call → Pc
  | some call => .forward call child
  | none => .waitWorkload child

/-- One step of `main`, which runs when no handler does. The workload is a child until it is
reaped, so `waitpid` has no error but an interruption. -/
def mainStep (boot : Boot) (s : State) (outcome : Outcome) : Option State :=
  match s.pc, outcome with
  | .spawnAgent, .returned result =>
    if Forked result then some { s with pc := .spawnWinsize, agentPid := result } else none
  | .spawnWinsize, .returned result =>
    if boot.winsizeAgent then
      if Forked result then some { s with pc := .spawnWorkload, winsizePid := result } else none
    else some { s with pc := .spawnWorkload, winsizePid := 0 }
  | .spawnWorkload, .returned result =>
    if !boot.restoreMode && !boot.hasCommand then some { s with pc := .powerOff 1 }
    else if Forked result then
      some (if result < 0 then { s with pc := .powerOff 1 }
        else { s with pc := .storePid result, workload := some {} })
    else none
  | .storePid child, .returned _ =>
    some { s with pc := .storeGroup child, globals := { s.globals with workloadPid := child } }
  | .storeGroup child, .returned _ =>
    some { s with pc := .checkPending child, globals := { s.globals with forwardToGroup := !boot.restoreMode } }
  | .checkPending child, .returned _ =>
    some { s with pc := if s.globals.pendingSignal.isSome then .loadPending child else .waitWorkload child }
  | .loadPending child, .returned _ =>
    s.globals.pendingSignal.map fun sig => { s with pc := .forward ⟨sig, .read⟩ child }
  | .forward call child, outcome => do
    let (left, s) ← forwardStep s call outcome
    return { s with pc := .afterForward child left }
  | .waitWorkload child, .reaped pid status =>
    if pid = child then
      if s.workload.any fun w => w.exited = some status then
        some { s with pc := .killGroup child (waitStatusCode status) }
      else none
    else some s
  | .waitWorkload _, .interrupted => some s
  | .killGroup _ status, .returned _ => some { s with pc := .clearPid status }
  | .clearPid status, .returned _ =>
    some { s with pc := .findScript status, globals := { s.globals with workloadPid := 0 } }
  | .findScript status, .returned size =>
    some (if size ≤ 0 then s.synced status 0 else { s with pc := .forkSync status })
  | .forkSync status, .returned result =>
    if Forked result then
      some (if result < 0 then s.synced status 1
        else { s with pc := .waitSync status result, syncRuns := s.syncRuns + 1 })
    else none
  | .waitSync status pid, .reaped pid' code =>
    if pid' = pid then
      some (if waitStatusCode code ≠ 0 then s.synced status (waitStatusCode code)
        else { s with pc := .removeScript status })
    else none
  | .waitSync _ _, .interrupted => some s
  | .removeScript status, .returned result => some (s.synced status (if result ≠ 0 then 1 else 0))
  | .stopSidecars status cleanup [], .returned _ =>
    some { s with pc := .powerOff (chooseRetainedStatus status cleanup) }
  | .stopSidecars status cleanup (pid :: pids), .returned result =>
    some (if pid < 0 then { s with pc := .trapped }
      else if pid = 0 ∨ result = 0 then s.stopped status cleanup pids 0
      else { s with pc := .probeSidecar status cleanup pids })
  | .probeSidecar status cleanup pids, .returned result =>
    some (s.stopped status cleanup pids (if result = 0 then 1 else 0))
  | _, _ => none

/-- The steps of `main`, one for each way it can go. -/
inductive Moved (boot : Boot) (s : State) : Outcome → State → Prop where
  | spawnedAgent (pc : s.pc = .spawnAgent) (result : Int) (forked : Forked result) :
      Moved boot s (.returned result) { s with pc := .spawnWinsize, agentPid := result }
  | spawnedWinsize (pc : s.pc = .spawnWinsize) (result : Int) (there : boot.winsizeAgent = true)
      (forked : Forked result) :
      Moved boot s (.returned result) { s with pc := .spawnWorkload, winsizePid := result }
  | noWinsize (pc : s.pc = .spawnWinsize) (result : Int) (absent : boot.winsizeAgent = false) :
      Moved boot s (.returned result) { s with pc := .spawnWorkload, winsizePid := 0 }
  | fatal (pc : s.pc = .spawnWorkload) (result : Int) : Moved boot s (.returned result)
      { s with pc := .powerOff 1 }
  | spawned (pc : s.pc = .spawnWorkload) (child : Int) (positive : 0 < child) :
      Moved boot s (.returned child) { s with pc := .storePid child, workload := some {} }
  | stored (child result : Int) (pc : s.pc = .storePid child) : Moved boot s (.returned result)
      { s with pc := .storeGroup child, globals := { s.globals with workloadPid := child } }
  | grouped (child result : Int) (pc : s.pc = .storeGroup child) : Moved boot s (.returned result)
      { s with pc := .checkPending child, globals := { s.globals with forwardToGroup := !boot.restoreMode } }
  | pending (child result : Int) (pc : s.pc = .checkPending child)
      (some_ : s.globals.pendingSignal.isSome) :
      Moved boot s (.returned result) { s with pc := .loadPending child }
  | nonePending (child result : Int) (pc : s.pc = .checkPending child)
      (none_ : s.globals.pendingSignal = none) :
      Moved boot s (.returned result) { s with pc := .waitWorkload child }
  | loaded (child result : Int) (pc : s.pc = .loadPending child) (sig : Sig)
      (recorded : s.globals.pendingSignal = some sig) :
      Moved boot s (.returned result) { s with pc := .forward ⟨sig, .read⟩ child }
  | forwarded (call : Call) (child : Int) (pc : s.pc = .forward call child) (outcome : Outcome)
      (left : Option Call) (t : State)
      (step : forwardStep s call outcome = some (left, t)) :
      Moved boot s outcome { t with pc := .afterForward child left }
  | reaped (child : Int) (pc : s.pc = .waitWorkload child) (w : Workload) (status : Nat)
      (there : s.workload = some w)
      (exited : w.exited = some status) :
      Moved boot s (.reaped child status) { s with pc := .killGroup child (waitStatusCode status) }
  | reapedOther (child pid : Int) (pc : s.pc = .waitWorkload child) (other : pid ≠ child) (status : Nat) :
      Moved boot s (.reaped pid status) s
  | interrupted (child : Int) (pc : s.pc = .waitWorkload child) : Moved boot s .interrupted s
  | killed (child : Int) (status : Nat) (pc : s.pc = .killGroup child status) (result : Int) :
      Moved boot s (.returned result) { s with pc := .clearPid status }
  | cleared (status : Nat) (pc : s.pc = .clearPid status) (result : Int) : Moved boot s (.returned result)
      { s with pc := .findScript status, globals := { s.globals with workloadPid := 0 } }
  | noScript (status : Nat) (pc : s.pc = .findScript status) (size : Int) :
      Moved boot s (.returned size) (s.synced status 0)
  | foundScript (status : Nat) (pc : s.pc = .findScript status) (size : Int) :
      Moved boot s (.returned size) { s with pc := .forkSync status }
  | noSync (status : Nat) (pc : s.pc = .forkSync status) (result : Int) : Moved boot s (.returned result)
      (s.synced status 1)
  | syncing (status : Nat) (pc : s.pc = .forkSync status) (pid : Int) : Moved boot s (.returned pid)
      { s with pc := .waitSync status pid, syncRuns := s.syncRuns + 1 }
  | syncFailed (status : Nat) (pid : Int) (pc : s.pc = .waitSync status pid) (code : Nat) :
      Moved boot s (.reaped pid code) (s.synced status (waitStatusCode code))
  | syncDone (status : Nat) (pid : Int) (pc : s.pc = .waitSync status pid) (code : Nat) :
      Moved boot s (.reaped pid code) { s with pc := .removeScript status }
  | syncInterrupted (status : Nat) (pid : Int) (pc : s.pc = .waitSync status pid) :
      Moved boot s .interrupted s
  | removed (status : Nat) (pc : s.pc = .removeScript status) (result : Int) :
      Moved boot s (.returned result) (s.synced status (if result ≠ 0 then 1 else 0))
  | retained (status cleanup : Nat) (pc : s.pc = .stopSidecars status cleanup []) (result : Int) :
      Moved boot s (.returned result) { s with pc := .powerOff (chooseRetainedStatus status cleanup) }
  | trapped (status cleanup : Nat) (pid : Int) (pids : List Int)
      (pc : s.pc = .stopSidecars status cleanup (pid :: pids))
      (negative : pid < 0) (result : Int) : Moved boot s (.returned result) { s with pc := .trapped }
  | stopped (status cleanup : Nat) (pid : Int) (pids : List Int)
      (pc : s.pc = .stopSidecars status cleanup (pid :: pids))
      (result : Int) : Moved boot s (.returned result) (s.stopped status cleanup pids 0)
  | probing (status cleanup : Nat) (pid : Int) (pids : List Int)
      (pc : s.pc = .stopSidecars status cleanup (pid :: pids))
      (result : Int) : Moved boot s (.returned result) { s with pc := .probeSidecar status cleanup pids }
  | probed (status cleanup : Nat) (pids : List Int) (pc : s.pc = .probeSidecar status cleanup pids)
      (result : Int) :
      Moved boot s (.returned result) (s.stopped status cleanup pids (if result = 0 then 1 else 0))

theorem mainStep_cases {boot : Boot} {s t : State} {outcome : Outcome}
    (step : mainStep boot s outcome = some t) : Moved boot s outcome t := by
  unfold mainStep at step
  split at step
  · rename_i result pc
    split_ifs at step with forked
    exact Option.some.inj step ▸ .spawnedAgent pc result forked
  · rename_i result pc
    split_ifs at step with there forked
    · exact Option.some.inj step ▸ .spawnedWinsize pc result there forked
    · exact Option.some.inj step ▸ .noWinsize pc result (Bool.not_eq_true _ ▸ there)
  · rename_i result pc
    split_ifs at step with missing forked failed
    · exact Option.some.inj step ▸ .fatal pc result
    · exact Option.some.inj step ▸ .fatal pc result
    · exact Option.some.inj step ▸ .spawned pc result (forked.resolve_left fun minus => failed (by omega))
  · rename_i child result pc
    exact Option.some.inj step ▸ .stored child result pc
  · rename_i child result pc
    exact Option.some.inj step ▸ .grouped child result pc
  · rename_i child result pc
    split_ifs at step with recorded
    · exact Option.some.inj step ▸ .pending child result pc recorded
    · exact Option.some.inj step ▸ .nonePending child result pc (Option.not_isSome_iff_eq_none.mp recorded)
  · rename_i child result pc
    obtain ⟨sig, recorded, rfl⟩ := Option.map_eq_some_iff.mp step
    exact .loaded child result pc sig recorded
  · rename_i outcome _ _ call child pc
    obtain ⟨⟨left, t'⟩, forwarded, step⟩ := Option.bind_eq_some_iff.mp step
    exact Option.some.inj step ▸ .forwarded call child pc outcome left t' forwarded
  · rename_i child pid status pc
    split_ifs at step with same exited
    · subst same
      cases there : s.workload with
      | none => rw [there] at exited; exact nomatch exited
      | some w =>
        rw [there] at exited
        exact Option.some.inj step ▸ .reaped pid pc w status there (of_decide_eq_true exited)
    · exact Option.some.inj step ▸ .reapedOther child pid pc same status
  · rename_i child pc
    exact Option.some.inj step ▸ .interrupted child pc
  · rename_i child status result pc
    exact Option.some.inj step ▸ .killed child status pc result
  · rename_i status result pc
    exact Option.some.inj step ▸ .cleared status pc result
  · rename_i status size pc
    split_ifs at step with missing
    · exact Option.some.inj step ▸ .noScript status pc size
    · exact Option.some.inj step ▸ .foundScript status pc size
  · rename_i status result pc
    split_ifs at step with forked failed
    · exact Option.some.inj step ▸ .noSync status pc result
    · exact Option.some.inj step ▸ .syncing status pc result
  · rename_i status pid pid' code pc
    split_ifs at step with same failed
    · subst same
      exact Option.some.inj step ▸ .syncFailed status pid' pc code
    · subst same
      exact Option.some.inj step ▸ .syncDone status pid' pc code
  · rename_i status pid pc
    exact Option.some.inj step ▸ .syncInterrupted status pid pc
  · rename_i status result pc
    exact Option.some.inj step ▸ .removed status pc result
  · rename_i status cleanup result pc
    exact Option.some.inj step ▸ .retained status cleanup pc result
  · rename_i status cleanup pid pids result pc
    split_ifs at step with negative gone
    · exact Option.some.inj step ▸ .trapped status cleanup pid pids pc negative result
    · exact Option.some.inj step ▸ .stopped status cleanup pid pids pc result
    · exact Option.some.inj step ▸ .probing status cleanup pid pids pc result
  · rename_i status cleanup pids result pc
    exact Option.some.inj step ▸ .probed status cleanup pids pc result
  · exact nomatch step

def arrive (s : State) (sig : Sig) : Option State :=
  if s.handlers.any fun call => call.sig = sig then none
  else some { s with handlers := ⟨sig, .store⟩ :: s.handlers,
                     log := .arrived sig (0 < s.globals.workloadPid) :: s.log }

/-- The innermost handler runs before the others and before `main`. -/
def advance (boot : Boot) (s : State) (outcome : Outcome) : Option State :=
  match s.handlers with
  | [] => mainStep boot s outcome
  | call :: rest => do
    let (left, s) ← forwardStep s call outcome
    return { s with handlers := left.toList ++ rest }

def State.workloadStep (s : State) (a : WorkloadAction) : Option State := do
  let w ← s.workload
  let w' ← w.step a
  return { s with workload := some w', log := if w'.exited.isSome then .exited :: s.log else s.log }

def step (boot : Boot) (s : State) : Action → Option State
  | .arrive sig => arrive s sig
  | .advance outcome => advance boot s outcome
  | .workload a => s.workloadStep a

abbrev exec (boot : Boot) : State → List Action → Option State := Run.exec (step boot)

end Machinen.Supervisor
