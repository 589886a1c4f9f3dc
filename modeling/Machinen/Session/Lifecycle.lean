import Machinen.Session.Reconstruction
import Machinen.Lib.Run

/-! The life of sessions beside the commands that maintain them. Workers and commands of
one user share the databases and the directory of sockets; a step is one statement of the
store or one socket call. The order in which `listSessions` returns its rows, and which
rows `gc` finds old enough, are the environment's. -/
namespace Machinen.Lifecycle

open Store

/-- How far `runWorker` has come. -/
inductive WorkerPc where
  | created
  | unlinked
  | bound
  | listening
  | spawned
  | ready
  | looping
  | saving (exitCode : Int)
  | exiting (exitCode : Int)
  | closing (failed : Bool)
  | unlinking (failed : Bool)
  | deleting
  | done
deriving DecidableEq, Repr

/-- The session exists or is about to: from the row's insertion to the end of the loop. -/
def WorkerPc.live : WorkerPc → Bool
  | .created | .unlinked | .bound | .listening | .spawned | .ready | .looping => true
  | _ => false

def WorkerPc.opening : WorkerPc → Bool
  | .created | .unlinked | .bound => true
  | _ => false

def WorkerPc.listens : WorkerPc → Bool
  | .listening | .spawned | .ready | .looping | .saving _ | .exiting _ | .closing _ => true
  | _ => false

structure Worker where
  database : String
  id : String
  pid : Int
  pc : WorkerPc := .created
deriving DecidableEq, Repr

structure Record where
  id : String
  state : SessionState
deriving DecidableEq, Repr

def Record.unfinished (record : Record) : Bool :=
  record.state = .running ∨ record.state = .created

def Record.finished (record : Record) : Bool :=
  record.state = .exited ∨ record.state = .stopped ∨ record.state = .orphaned

inductive Task where
  | list
  | reconcile
  | gc (dryRun : Bool)
  | attach (id : String)
  | delete (id : String)
deriving DecidableEq, Repr

/-- How far a command has come; the records are those it has yet to look at. -/
inductive CommandPc where
  | probing (records : List Record)
  | marking (id : String) (records : List Record)
  | removing (id : String) (records : List Record)
  | listing
  | sweeping (records : List Record)
  | attachProbing (id : String)
  | attachMarking (id : String)
  | deleting (id : String)
  | done
deriving DecidableEq, Repr

structure Command where
  database : String
  task : Task
  pc : CommandPc
deriving DecidableEq, Repr

structure State where
  databases : String → Database := fun _ => {}
  /-- The worker whose socket has the path of an id. -/
  sockets : String → Option Nat := fun _ => none
  workers : List Worker := []
  commands : List Command := []

inductive Action where
  | start (database : String) (input : CreateSession) (pid : Int) (faults : List (Option StoreError))
  | proceed (worker : Nat) (ok : Bool) (faults : List (Option StoreError))
  | journal (worker : Nat) (sequence : UInt64) (formatVersion : UInt32) (payload : Bytes)
      (columns rows : UInt32) (faults : List (Option StoreError))
  | exit (worker : Nat) (exitCode : Int)
  | kill (worker : Nat)
  | launch (database : String) (task : Task) (records : List Record)
  | command (command : Nat) (records : List Record) (old : Bool) (faults : List (Option StoreError))
  | abandon (command : Nat)

namespace State

variable (s : State)

/-- A method of the store; the second part tells whether it returned. -/
def call (database : String) (operation : Operation) (faults : List (Option StoreError)) : State × Bool :=
  let (answer, store) := operation.run { working := s.databases database, faults }
  ({ s with databases := Function.update s.databases database store.working }, answer.isOk)

def holding (database id : String) : Option Session × List Event × List Checkpoint :=
  ((s.databases database).sessions.lookup id, (s.databases database).events id,
    (s.databases database).checkpoints id)

def rowState (database id : String) : Option SessionState := (s.holding database id).1.map Session.state

def records (database : String) : List Record :=
  (s.databases database).sessions.entries.map fun entry => ⟨entry.1, entry.2.state⟩

/-- `connect` succeeds where a socket that listens has the path. -/
def workerReachable (id : String) : Bool :=
  match s.sockets id with
  | none => false
  | some n => match s.workers[n]? with
    | none => false
    | some worker => worker.pc.listens

def setSocket (id : String) (owner : Option Nat) : State :=
  { s with sockets := Function.update s.sockets id owner }

def setWorker (n : Nat) (worker : Worker) (pc : WorkerPc) : State :=
  { s with workers := s.workers.set n { worker with pc := pc } }

def setCommand (n : Nat) (command : Command) (pc : CommandPc) : State :=
  { s with commands := s.commands.set n { command with pc := pc } }

/-- The next step of `runWorker`. Its deferred statements run backwards from where it fails:
the descriptor is closed, the path is removed, the row is deleted. -/
def runWorker (n : Nat) (w : Worker) (ok : Bool) (faults : List (Option StoreError)) : Option State :=
  match w.pc with
  | .created =>
    if ok then some ((s.setSocket w.id none).setWorker n w .unlinked) else some (s.setWorker n w .deleting)
  | .unlinked =>
    -- `bind` refuses a path that exists
    if ok ∧ s.sockets w.id = none then some ((s.setSocket w.id (some n)).setWorker n w .bound)
    else some (s.setWorker n w .deleting)
  | .bound => some (s.setWorker n w (if ok then .listening else .deleting))
  | .listening => some (s.setWorker n w (if ok then .spawned else .closing true))
  | .spawned =>
    let (t, returned) := s.call w.database (.setRunning w.id w.pid) faults
    some (t.setWorker n w (if returned then .ready else .closing true))
  | .ready => some (s.setWorker n w (if ok then .looping else .closing true))
  | .looping => none
  | .saving exitCode => some (s.setWorker n w (.exiting exitCode))
  | .exiting exitCode =>
    some ((s.call w.database (.setExited w.id exitCode) faults).1.setWorker n w (.closing false))
  | .closing failed => some (s.setWorker n w (.unlinking failed))
  | .unlinking failed =>
    some ((if ok then s.setSocket w.id none else s).setWorker n w (if failed then .deleting else .done))
  | .deleting => some ((s.call w.database (.deleteSession w.id) faults).1.setWorker n w .done)
  | .done => none

def saveCheckpoint (n : Nat) (w : Worker) (operation : Operation) (faults : List (Option StoreError)) :
    Option State :=
  match w.pc with
  | .looping => some ((s.call w.database operation faults).1.setWorker n w .looping)
  | .saving exitCode => some ((s.call w.database operation faults).1.setWorker n w (.exiting exitCode))
  | _ => none

def launched (database : String) (records : List Record) : Task → Option CommandPc
  | .list | .reconcile => if records.Perm (s.records database) then some (.probing records) else none
  | .gc dryRun =>
    if dryRun then some .listing
    else if records.Perm (s.records database) then some (.probing records) else none
  | .attach id => (s.rowState database id).map fun state =>
    if Record.unfinished ⟨id, state⟩ then .attachProbing id else .done
  | .delete id => (s.rowState database id).map fun state =>
    if Record.unfinished ⟨id, state⟩ then .done else .deleting id

/-- `reconcileStore` ends, and the command goes on. -/
def afterReconcile : Task → CommandPc
  | .gc _ => .listing
  | _ => .done

def runCommand (n : Nat) (c : Command) (records : List Record) (old : Bool)
    (faults : List (Option StoreError)) : Option State :=
  match c.pc with
  | .probing [] => some (s.setCommand n c (afterReconcile c.task))
  | .probing (record :: rest) =>
    some (s.setCommand n c (if record.unfinished ∧ s.workerReachable record.id = false
      then .marking record.id rest else .probing rest))
  | .marking id rest =>
    let (t, returned) := s.call c.database (.markOrphaned id) faults
    some (t.setCommand n c (if returned then .removing id rest else .done))
  | .removing id rest => some ((s.setSocket id none).setCommand n c (.probing rest))
  | .listing =>
    if records.Perm (s.records c.database) then
      some (s.setCommand n c (if c.task = .gc true then .done else .sweeping records))
    else none
  | .sweeping [] => some (s.setCommand n c .done)
  | .sweeping (record :: rest) =>
    if record.finished ∧ old then
      let (t, returned) := s.call c.database (.deleteSession record.id) faults
      some (t.setCommand n c (if returned then .sweeping rest else .done))
    else some (s.setCommand n c (.sweeping rest))
  | .attachProbing id =>
    some (s.setCommand n c (if s.workerReachable id then .done else .attachMarking id))
  | .attachMarking id => some ((s.call c.database (.markOrphaned id) faults).1.setCommand n c .done)
  | .deleting id => some ((s.call c.database (.deleteSession id) faults).1.setCommand n c .done)
  | .done => none

def step : Action → Option State
  | .start database input pid faults =>
    let (t, returned) := s.call database (.createSession input) faults
    some (if returned then { t with workers := t.workers ++ [{ database, id := input.id, pid }] } else t)
  | .proceed n ok faults => s.workers[n]?.bind fun w => s.runWorker n w ok faults
  | .journal n sequence formatVersion payload columns rows faults => s.workers[n]?.bind fun w =>
    s.saveCheckpoint n w (.replaceRecoveryCheckpoint w.id sequence formatVersion payload columns rows)
      faults
  | .exit n exitCode => s.workers[n]?.bind fun w =>
    if w.pc = .looping then some (s.setWorker n w (.saving exitCode)) else none
  -- the kernel closes the descriptor; the path and the row stay
  | .kill n => s.workers[n]?.bind fun w => if w.pc = .done then none else some (s.setWorker n w .done)
  | .launch database task records =>
    (s.launched database records task).map fun pc =>
      { s with commands := s.commands ++ [{ database, task, pc }] }
  | .command n records old faults => s.commands[n]?.bind fun c => s.runCommand n c records old faults
  | .abandon n => s.commands[n]?.map fun c => s.setCommand n c .done

abbrev exec : State → List Action → Option State := Run.exec step

end State

/-! What a session is promised. -/

def State.Served (s : State) : Prop :=
  ∀ n w, s.workers[n]? = some w → w.pc = .looping →
    s.rowState w.database w.id = some .running ∧ s.sockets w.id = some n

def Action.worker? : Action → Option Nat
  | .proceed n .. | .journal n .. | .exit n _ | .kill n => some n
  | _ => none

structure Harmless (s : State) (a : Action) (t : State) : Prop where
  others : ∀ n w, s.workers[n]? = some w → w.pc.live = true → a.worker? ≠ some n →
    t.holding w.database w.id = s.holding w.database w.id ∧
    (s.sockets w.id = some n → t.sockets w.id = some n)
  exited : ∀ database id, s.rowState database id = some .exited →
    t.rowState database id = some .exited ∨ t.rowState database id = none

def Command.condemns (c : Command) (database id : String) : Bool :=
  match c.pc with
  | .marking condemned _ | .removing condemned _ => condemned = id
  | .attachMarking condemned | .deleting condemned => c.database = database ∧ condemned = id
  | .sweeping records => c.database = database ∧ ∃ record ∈ records, record.id = id ∧ record.finished
  | _ => false

def Command.judges (c : Command) (database id : String) : Bool :=
  match c.pc with
  | .probing (record :: _) => record.unfinished ∧ record.id = id
  | .attachProbing judged => c.database = database ∧ judged = id
  | _ => false

def Careful (s : State) : Action → Prop
  | .start database input _ _ =>
    (∀ w ∈ s.workers, w.id = input.id → w.pc = .done) ∧
      ∀ c ∈ s.commands, c.condemns database input.id = false
  | .command n _ _ _ => ∀ c ∈ s.commands[n]?, ∀ w ∈ s.workers, w.pc.opening = true →
    c.judges w.database w.id = false
  | _ => True

instance (s : State) (a : Action) : Decidable (Careful s a) := by
  cases a <;> unfold Careful <;> infer_instance

end Machinen.Lifecycle
