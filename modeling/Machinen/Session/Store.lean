import Machinen.Lib.Transaction
import Machinen.Lib.Bytes
import Mathlib.Data.List.AList

/-! The session store: sessions, their journal events and their checkpoints in one
database. A method is one statement or one transaction, and any statement of it may
fail. A failed assertion ends the process; what it leaves behind is the image before
its transaction, so here it is one more error. -/
namespace Machinen.Store

open Prog Connection

inductive StoreError where
  | databaseBusy | constraintViolation | invalidDatabase | sqliteFailure | trap
  | emptySessionId | emptyWorkingDirectory | emptyArgv | invalidTerminalSize | emptySessionName
  | invalidProtocolVersion | sessionNotFound | invalidWorkerPid | emptyOutput | emptyMarker
  | invalidCheckpointVersion | emptyCheckpoint | invalidCheckpointSequence | checkpointNotFound
deriving DecidableEq, Repr

inductive SessionState where
  | created | running | exited | stopped | orphaned
deriving DecidableEq, Repr

inductive EventKind where
  | output | resize | marker
deriving DecidableEq, Repr

structure CreateSession where
  id : String
  name : Option String := none
  workingDirectory : String
  argvJson : String
  rows : UInt32
  columns : UInt32
  protocolVersion : UInt32 := 2

/-- The largest INTEGER of SQLite. -/
def largest : Nat := 2 ^ 63 - 1

/-- The sum that SQLite stores: past the largest INTEGER it is the REAL 2^63, which one
more addition leaves as it is. -/
def increment (value : Nat) : Nat := min (value + 1) (2 ^ 63)

def columnInt64 (value : Nat) : Nat := min value largest

structure Session where
  name : Option String
  workingDirectory : String
  argvJson : String
  state : SessionState := .created
  rows : Nat
  columns : Nat
  storedSequence : Nat := 0
  workerPid : Option Int := none
  exitCode : Option Int := none
  protocolVersion : Nat
deriving DecidableEq, Repr

def Session.lastSequence (session : Session) : Nat := columnInt64 session.storedSequence

structure Event where
  sequence : Nat
  kind : EventKind
  payload : Bytes
deriving DecidableEq, Repr

structure Checkpoint where
  sequence : Nat
  formatVersion : Nat
  payload : Bytes
deriving DecidableEq, Repr

/-- The rows of a session's events and checkpoints, in the order of insertion. -/
structure Database where
  sessions : AList fun _ : String => Session := ∅
  events : String → List Event := fun _ => []
  checkpoints : String → List Checkpoint := fun _ => []

abbrev SessionStore := Connection Database StoreError

abbrev Sql (A : Type) := Prog SessionStore StoreError A

abbrev Statement (A : Type) := Database → Except StoreError (A × Database)

def insertSession (input : CreateSession) : Statement PUnit := fun db =>
  if input.id ∈ db.sessions ∨ ∃ row ∈ db.sessions.entries, input.name ≠ none ∧ row.2.name = input.name
  then .error .constraintViolation
  else .ok (⟨⟩, { db with
    sessions := db.sessions.insert input.id {
      name := input.name
      workingDirectory := input.workingDirectory
      argvJson := input.argvJson
      rows := input.rows.toNat
      columns := input.columns.toNat
      protocolVersion := input.protocolVersion.toNat } })

/-- The events and the checkpoints go with their session. -/
def deleteSessions (id : String) : Statement Nat := fun db =>
  if id ∈ db.sessions then
    .ok (1, {
      sessions := db.sessions.erase id
      events := Function.update db.events id []
      checkpoints := Function.update db.checkpoints id [] })
  else .ok (0, db)

def updateSession (id : String) (set : Session → Session) : Statement Nat := fun db =>
  match db.sessions.lookup id with
  | some session => .ok (1, { db with sessions := db.sessions.insert id (set session) })
  | none => .ok (0, db)

def insertEvents (id : String) (event : Event) : Statement PUnit := fun db =>
  if event.sequence = 0 ∨ id ∉ db.sessions ∨ event.sequence ∈ (db.events id).map Event.sequence
  then .error .constraintViolation
  else .ok (⟨⟩, { db with events := Function.update db.events id (db.events id ++ [event]) })

def upsert (checkpoint : Checkpoint) (rows : List Checkpoint) : List Checkpoint :=
  if checkpoint.sequence ∈ rows.map Checkpoint.sequence
  then rows.map fun row => if row.sequence = checkpoint.sequence then checkpoint else row
  else rows ++ [checkpoint]

def upsertCheckpoint (id : String) (checkpoint : Checkpoint) : Statement PUnit := fun db =>
  if checkpoint.formatVersion = 0 ∨ id ∉ db.sessions then .error .constraintViolation
  else .ok (⟨⟩, { db with
    checkpoints := Function.update db.checkpoints id (upsert checkpoint (db.checkpoints id)) })

def deleteCheckpointsBefore (id : String) (sequence : Nat) : Statement PUnit := fun db =>
  .ok (⟨⟩, { db with
    checkpoints := Function.update db.checkpoints id
      ((db.checkpoints id).filter fun row => ¬ row.sequence < sequence) })

def deleteEventsThrough (id : String) (sequence : Nat) : Statement Nat := fun db =>
  .ok ((db.events id).countP fun row => row.sequence ≤ sequence, { db with
    events := Function.update db.events id ((db.events id).filter fun row => ¬ row.sequence ≤ sequence) })

def Database.eventsAfter (db : Database) (id : String) (sequence : Nat) : List Event :=
  ((db.events id).filter fun row => sequence < row.sequence).mergeSort fun a b => a.sequence ≤ b.sequence

def Database.latestCheckpoint (db : Database) (id : String) : Option Checkpoint :=
  ((db.checkpoints id).mergeSort fun a b => b.sequence ≤ a.sequence).head?

/-- `begin`, the body under `errdefer rollback`, and `commit`. -/
def inTransaction {A : Type} (body : Sql A) : Sql A := transaction .sqliteFailure body

def createSession (input : CreateSession) : Sql PUnit := do
  ensure (input.id ≠ "") .emptySessionId
  ensure (input.workingDirectory ≠ "") .emptyWorkingDirectory
  ensure (input.argvJson ≠ "") .emptyArgv
  ensure (¬ (input.rows = 0 ∨ input.columns = 0)) .invalidTerminalSize
  query fun _ => PUnit.unit
  ensure (input.name ≠ some "") .emptySessionName
  ensure (¬ (input.protocolVersion = 0 ∨ input.protocolVersion > 2)) .invalidProtocolVersion
  execute (insertSession input)

def deleteSession (id : String) : Sql PUnit := do
  let changes ← execute (deleteSessions id)
  ensure (changes ≠ 0) .sessionNotFound

def setRunning (id : String) (workerPid : Int) : Sql PUnit := do
  ensure (¬ workerPid ≤ 0) .invalidWorkerPid
  let changes ← execute (updateSession id fun session =>
    { session with state := .running, workerPid := some workerPid, exitCode := none })
  ensure (changes ≠ 0) .sessionNotFound

def setExited (id : String) (exitCode : Int) : Sql PUnit := do
  let changes ← execute (updateSession id fun session =>
    { session with state := .exited, workerPid := none, exitCode := some exitCode })
  ensure (changes ≠ 0) .sessionNotFound

def setState (id : String) (state : SessionState) : Sql PUnit := do
  let changes ← execute (updateSession id fun session => { session with state := state })
  ensure (changes ≠ 0) .sessionNotFound

def markOrphaned (id : String) : Sql PUnit := do
  let _ ← execute (updateSession id fun session =>
    if session.state = .created ∨ session.state = .running
    then { session with state := .orphaned, workerPid := none } else session)

def currentSequence (id : String) : Sql Nat := do
  let row ← query fun db => (db.sessions.lookup id).map Session.lastSequence
  need row .sessionNotFound

def nextSequence (id : String) : Sql Nat := do
  let changes ← execute (updateSession id fun session =>
    { session with storedSequence := increment session.storedSequence })
  ensure (changes ≠ 0) .sessionNotFound
  currentSequence id

def insertEvent (id : String) (sequence : Nat) (kind : EventKind) (payload : Bytes) : Sql PUnit :=
  execute (insertEvents id ⟨sequence, kind, payload⟩)

def appendEvent (id : String) (kind : EventKind) (payload : Bytes) : Sql Nat :=
  inTransaction do
    let sequence ← nextSequence id
    insertEvent id sequence kind payload
    pure sequence

def appendOutput (id : String) (output : Bytes) : Sql Nat := do
  ensure (output ≠ []) .emptyOutput
  appendEvent id .output output

def appendMarker (id : String) (marker : Bytes) : Sql Nat := do
  ensure (marker ≠ []) .emptyMarker
  appendEvent id .marker marker

def resizePayload (columns rows : UInt32) : Bytes :=
  Bytes.le 4 columns.toNat ++ Bytes.le 4 rows.toNat

def recordResize (id : String) (columns rows : UInt32) : Sql Nat := do
  ensure (¬ (columns = 0 ∨ rows = 0)) .invalidTerminalSize
  inTransaction do
    let sequence ← nextSequence id
    insertEvent id sequence .resize (resizePayload columns rows)
    let _ ← execute (updateSession id fun session =>
      { session with columns := columns.toNat, rows := rows.toNat })
    pure sequence

def deleteOlderCheckpoints (id : String) (sequence : Nat) : Sql PUnit :=
  execute (deleteCheckpointsBefore id sequence)

def saveCheckpoint (id : String) (formatVersion : UInt32) (payload : Bytes) : Sql Nat := do
  ensure (formatVersion ≠ 0) .invalidCheckpointVersion
  ensure (payload ≠ []) .emptyCheckpoint
  inTransaction do
    let sequence ← currentSequence id
    execute (upsertCheckpoint id ⟨sequence, formatVersion.toNat, payload⟩)
    deleteOlderCheckpoints id sequence
    pure sequence

def checkpointAndCompact (id : String) (formatVersion : UInt32) (payload : Bytes) : Sql (Nat × Nat) := do
  ensure (formatVersion ≠ 0) .invalidCheckpointVersion
  ensure (payload ≠ []) .emptyCheckpoint
  inTransaction do
    let sequence ← currentSequence id
    execute (upsertCheckpoint id ⟨sequence, formatVersion.toNat, payload⟩)
    deleteOlderCheckpoints id sequence
    let removedEvents ← execute (deleteEventsThrough id sequence)
    pure (sequence, removedEvents)

def replaceRecoveryCheckpoint (id : String) (sequence : UInt64) (formatVersion : UInt32) (payload : Bytes)
    (columns rows : UInt32) : Sql Nat := do
  ensure (formatVersion ≠ 0) .invalidCheckpointVersion
  ensure (payload ≠ []) .emptyCheckpoint
  ensure (¬ (columns = 0 ∨ rows = 0)) .invalidTerminalSize
  ensure (id ≠ "" ∧ sequence > 0) .trap
  inTransaction do
    let current ← currentSequence id
    ensure (¬ sequence.toNat < current) .invalidCheckpointSequence
    -- the sequence is bound as a signed integer
    ensure (sequence.toNat ≤ largest) .trap
    let changes ← execute (updateSession id fun session =>
      { session with storedSequence := sequence.toNat, columns := columns.toNat, rows := rows.toNat })
    ensure (changes ≠ 0) .sessionNotFound
    execute (upsertCheckpoint id ⟨sequence.toNat, formatVersion.toNat, payload⟩)
    deleteOlderCheckpoints id sequence.toNat
    let _ ← execute (deleteEventsThrough id sequence.toNat)
    pure sequence.toNat

def compactThroughCheckpoint (id : String) (sequence : UInt64) : Sql Nat :=
  inTransaction do
    ensure (sequence.toNat ≤ largest) .trap
    let verified ← query fun db => decide (sequence.toNat ∈ (db.checkpoints id).map Checkpoint.sequence)
    ensure (verified = true) .checkpointNotFound
    execute (deleteEventsThrough id sequence.toNat)

/-- A call of a method that may write. -/
inductive Operation where
  | createSession (input : CreateSession)
  | deleteSession (id : String)
  | setRunning (id : String) (workerPid : Int)
  | setExited (id : String) (exitCode : Int)
  | setState (id : String) (state : SessionState)
  | markOrphaned (id : String)
  | appendOutput (id : String) (output : Bytes)
  | appendMarker (id : String) (marker : Bytes)
  | recordResize (id : String) (columns rows : UInt32)
  | saveCheckpoint (id : String) (formatVersion : UInt32) (payload : Bytes)
  | checkpointAndCompact (id : String) (formatVersion : UInt32) (payload : Bytes)
  | replaceRecoveryCheckpoint (id : String) (sequence : UInt64) (formatVersion : UInt32)
      (payload : Bytes) (columns rows : UInt32)
  | compactThroughCheckpoint (id : String) (sequence : UInt64)

/-- What a call that returns nothing answers is 0 here. -/
def Operation.run : Operation → Sql Nat
  | .createSession input => (fun _ => 0) <$> Store.createSession input
  | .deleteSession id => (fun _ => 0) <$> Store.deleteSession id
  | .setRunning id workerPid => (fun _ => 0) <$> Store.setRunning id workerPid
  | .setExited id exitCode => (fun _ => 0) <$> Store.setExited id exitCode
  | .setState id state => (fun _ => 0) <$> Store.setState id state
  | .markOrphaned id => (fun _ => 0) <$> Store.markOrphaned id
  | .appendOutput id output => Store.appendOutput id output
  | .appendMarker id marker => Store.appendMarker id marker
  | .recordResize id columns rows => Store.recordResize id columns rows
  | .saveCheckpoint id formatVersion payload => Store.saveCheckpoint id formatVersion payload
  | .checkpointAndCompact id formatVersion payload =>
    Prod.fst <$> Store.checkpointAndCompact id formatVersion payload
  | .replaceRecoveryCheckpoint id sequence formatVersion payload columns rows =>
    Store.replaceRecoveryCheckpoint id sequence formatVersion payload columns rows
  | .compactThroughCheckpoint id sequence => Store.compactThroughCheckpoint id sequence

end Machinen.Store
