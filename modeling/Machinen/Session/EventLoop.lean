import Machinen.Session.Worker
import Machinen.Lib.Run

/-! runEventLoop, one step for each handler it calls, and the end of runWorker.
A step takes what the kernel answers meanwhile; it is refused where the kernel
cannot give that answer. -/
namespace Machinen.Session

structure Revents where
  readable : Bool := false
  hungUp : Bool := false
deriving DecidableEq, Repr

structure Polled where
  pty : Revents := {}
  listener : Bool := false
  clients : Slot → Revents := fun _ => {}

inductive Phase where
  | poll
  | owner
  | accept
  | pty
  | drain
  | flushing (slot : Slot)
  | serving (slot : Slot)
  | hangup (slot : Slot)
  | ownerAgain
  | due
  | finish
  | done
deriving DecidableEq, Repr

/-- What the kernel answers during one step. Each phase reads its own part. -/
structure Input where
  env : Env := {}
  polled : Option Polled := none
  accepted : Option Accepted := none
  reads : List Bytes := []
  frame : Option Frame := none
  exitCode : Nat := 0

structure Loop where
  worker : Worker
  phase : Phase := .poll
  polled : Polled := {}
  /-- The connection that each poll result was obtained for. -/
  polledConn : Slot → Option Nat := fun _ => none
  nextConn : Nat := 0
  read : Bytes := []
  exitRecorded : Bool := false

namespace Loop

def reported (w : Worker) (polled : Polled) : Polled :=
  { polled with clients := fun i =>
      if (w.clients i).fd.isSome then polled.clients i else {} }

def connOf (w : Worker) (i : Slot) : Option Nat :=
  (w.clients i).fd.map fun _ => (w.clients i).link.conn

/-- A poll result is used on a slot: a note is made when the slot's connection
is not the one it was obtained for. -/
def notePoll (s : Loop) (w : Worker) (i : Slot) : Worker :=
  if (w.clients i).fd.isSome ∧ connOf w i ≠ s.polledConn i then
    { w with misuse := w.misuse ++ [.stalePoll i] }
  else w

def nextSlot (i : Slot) : Phase :=
  if inside : i.val + 1 < maxClients then .flushing ⟨i.val + 1, inside⟩ else .ownerAgain

def firstSlot : Phase := .flushing ⟨0, by decide⟩

def pollStep (s : Loop) (w : Worker) (input : Input) : Loop :=
  match input.polled with
  | none => { s with worker := w }
  | some polled =>
    { s with worker := w, phase := .owner, polled := reported w polled, polledConn := connOf w }

def fresh (w : Worker) : Option Accepted → Bool
  | none => true
  | some accepted => slots.all fun i => (w.clients i).fd ≠ some accepted.fd

def acceptStep (s : Loop) (w : Worker) (input : Input) : Option Loop :=
  if !s.polled.listener then some { s with worker := w, phase := .pty }
  else if !fresh w input.accepted then none
  else some { s with
    worker := w.acceptClient input.accepted s.nextConn
    phase := .pty
    nextConn := s.nextConn + 1 }

def ptyStep (s : Loop) (w : Worker) (input : Input) : Loop :=
  let hungUp := if s.polled.pty.hungUp then .drain else firstSlot
  if !s.polled.pty.readable then { s with worker := w, phase := hungUp }
  else
    let output := input.reads.headD []
    if output = [] then { s with worker := w, phase := .finish }
    else { s with worker := w.bufferOutput output, phase := hungUp, read := s.read ++ output }

def drainStep (s : Loop) (w : Worker) (input : Input) : Loop :=
  { s with
    worker := w.drainPty input.reads
    phase := .finish
    read := s.read ++ (input.reads.takeWhile (· ≠ [])).flatten }

def flushingStep (s : Loop) (w : Worker) (i : Slot) : Loop :=
  if (w.clients i).fd = none then { s with worker := w, phase := nextSlot i }
  else if (s.polled.clients i).readable then
    { s with worker := (s.notePoll w i).flushOutput, phase := .serving i }
  else { s with worker := w, phase := .hangup i }

def hangupStep (s : Loop) (w : Worker) (i : Slot) : Loop :=
  if (s.polled.clients i).hungUp then
    { s with worker := (s.notePoll w i).closeClient i, phase := nextSlot i }
  else { s with worker := w, phase := nextSlot i }

def flushIfDue (w : Worker) (now : Nat) : Worker :=
  if w.journal.pending.shouldFlush now then w.flushOutput else w

def checkpointIfDue (w : Worker) (now : Nat) : Worker :=
  if w.journal.history.shouldCheckpoint now then
    let w := w.flushOutput
    if w.journal.history.shouldCheckpoint now then w.saveCheckpoint else w
  else w

def dueStep (s : Loop) (w : Worker) : Loop :=
  let w := w.monotonicMilliseconds
  { s with worker := checkpointIfDue (flushIfDue w w.nowMs) w.nowMs, phase := .poll }

/-- The deferred flush, the last checkpoint, the exit record and frame, and the
deferred close of every client. -/
def finishStep (s : Loop) (w : Worker) (code : Nat) : Loop :=
  let w := w.flushOutput.saveCheckpoint
  if w.crashed then { s with worker := w, phase := .done }
  else
    let (recorded, w) := w.outcome
    { s with
      worker := slots.foldl Worker.closeClient (w.broadcastExit code)
      phase := .done
      exitRecorded := recorded }

def phaseStep (s : Loop) (w : Worker) (input : Input) : Option Loop :=
  match s.phase with
  | .poll => some (s.pollStep w input)
  | .owner => some { s with worker := w.refreshGeometryOwner, phase := .accept }
  | .accept => s.acceptStep w input
  | .pty => some (s.ptyStep w input)
  | .drain => some (s.drainStep w input)
  | .flushing i => some (s.flushingStep w i)
  | .serving i => some { s with worker := w.serviceClient i input.frame, phase := .hangup i }
  | .hangup i => some (s.hangupStep w i)
  | .ownerAgain => some { s with worker := w.refreshGeometryOwner, phase := .due }
  | .due => some (s.dueStep w)
  | .finish => some (s.finishStep w input.exitCode)
  | .done => none

def entered (s : Loop) (input : Input) : Worker := { s.worker with env := input.env }

def step (s : Loop) (input : Input) : Option Loop :=
  if s.worker.crashed then none else s.phaseStep (s.entered input) input

theorem phaseStep_of_step {s t : Loop} {input : Input} (moved : step s input = some t) :
    s.worker.crashed = false ∧ s.phaseStep (s.entered input) input = some t := by
  unfold step at moved
  split at moved
  · exact nomatch moved
  · exact ⟨Bool.eq_false_iff.mpr ‹_›, moved⟩

def start (columns rows checkpointBytes : Nat) (positive : 0 < columns ∧ 0 < rows)
    (paint : List VtCommand → Bytes) : Loop where
  worker := {
    geometry := { columns := columns, rows := rows, positive := positive }
    journal := {
      builder := {
        paint := paint, commands := [], rows := rows, columns := columns, bytesSinceCheckpoint := 0 }
      stored := { columns := columns, rows := rows } }
    checkpointBytes := checkpointBytes }

abbrev exec : Loop → List Input → Option Loop := Run.exec step

/-- Nothing happens: no poll result, no connection and no byte. -/
def quiet : Input := { env := {} }

/-- The steps of one iteration that accepts a connection while every slot after
the first is unused, and of one in which the client of the first slot is served. -/
def accepting (accepted : Accepted) : List Input :=
  [{ polled := some { listener := true } }, quiet, { accepted := some accepted }] ++
    List.replicate 16 quiet

def serving (frame : Frame) : List Input :=
  [{ polled := some { clients := fun i => { readable := decide (i.val = 0) } } },
    quiet, quiet, quiet, quiet, { frame := some frame }] ++ List.replicate 14 quiet

def attachFrame (flags recovery features afterSequence clientId : Nat) : Frame :=
  ⟨.attachRequest, Bytes.be 4 protocolVersion ++ ([UInt8.ofNat flags, UInt8.ofNat recovery,
    UInt8.ofNat features, 0] ++ (Bytes.be 8 afterSequence ++ Bytes.be 8 clientId))⟩

end Loop
end Machinen.Session
