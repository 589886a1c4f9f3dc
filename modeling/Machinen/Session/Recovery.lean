import Machinen.Session.Wire

/-! The stores a session can be resumed from: the events kept in memory, the
output not yet published, the terminal picture and the checkpoint in the database. -/
namespace Machinen.Session

def outputBatchBytes : Nat := 256 * 1024
def outputBatchDelayMs : Nat := 4
def durableCheckpointIntervalMs : Nat := 60000
def maxLiveHistoryBytes : Nat := 16 * 1024 * 1024

structure LiveOutput where
  sequence : Nat
  payload : Bytes
deriving DecidableEq, Repr

/-- The byte count is that of the events and never above the cap, as the
assertions of the source have it. -/
structure LiveHistory where
  events : List LiveOutput
  payloadBytes : Nat
  baseSequence : Nat
  dirtySinceMs : Nat
  complete : Bool
  counted : payloadBytes = (events.map (·.payload.length)).sum
  bounded : payloadBytes ≤ maxLiveHistoryBytes

namespace LiveHistory

def empty : LiveHistory where
  events := []
  payloadBytes := 0
  baseSequence := 0
  dirtySinceMs := 0
  complete := true
  counted := rfl
  bounded := Nat.zero_le _

def clearEvents (self : LiveHistory) : LiveHistory :=
  { self with events := [], payloadBytes := 0, counted := rfl, bounded := Nat.zero_le _ }

def discard (self : LiveHistory) : LiveHistory := { self.clearEvents with complete := false }

def reset (self : LiveHistory) (sequence : Nat) : LiveHistory :=
  { self.clearEvents with baseSequence := sequence, dirtySinceMs := 0, complete := true }

def dated (self : LiveHistory) (nowMs : Nat) : LiveHistory :=
  if self.dirtySinceMs = 0 then { self with dirtySinceMs := nowMs } else self

def push (self : LiveHistory) (event : LiveOutput)
    (fits : self.payloadBytes + event.payload.length ≤ maxLiveHistoryBytes) : LiveHistory :=
  { self with
    events := self.events ++ [event]
    payloadBytes := self.payloadBytes + event.payload.length
    counted := by simp [self.counted]
    bounded := fits }

def add (self : LiveHistory) (event : LiveOutput) (allocated : Bool) : Bool × LiveHistory :=
  if !self.complete then (true, self)
  else if large : maxLiveHistoryBytes < self.payloadBytes + event.payload.length then
    (true, self.discard)
  else if !allocated then (false, self)
  else (true, self.push event (Nat.le_of_not_lt large))

/-- `allocated` tells whether both allocations succeed; the error leaves the
events as they were. -/
def append (self : LiveHistory) (sequence : Nat) (payload : Bytes) (nowMs : Nat)
    (allocated : Bool) : Bool × LiveHistory :=
  (self.dated nowMs).add ⟨sequence, payload⟩ allocated

/-- `append(...) catch discard()`. -/
def remember (self : LiveHistory) (sequence : Nat) (payload : Bytes) (nowMs : Nat)
    (allocated : Bool) : LiveHistory :=
  match self.append sequence payload nowMs allocated with
  | (true, history) => history
  | (false, history) => history.discard

def shouldCheckpoint (self : LiveHistory) (nowMs : Nat) : Bool :=
  self.dirtySinceMs ≠ 0 ∧ durableCheckpointIntervalMs ≤ nowMs - self.dirtySinceMs

def after (self : LiveHistory) (sequence : Nat) : List LiveOutput :=
  self.events.filter fun event => sequence < event.sequence

end LiveHistory

structure OutputBatch where
  bytes : Bytes := []
  startedAtMs : Nat := 0
deriving DecidableEq, Repr

namespace OutputBatch

def append (self : OutputBatch) (output : Bytes) (nowMs : Nat) (allocated : Bool) :
    Bool × OutputBatch :=
  let self := if self.bytes = [] then { self with startedAtMs := nowMs } else self
  if allocated then (true, { self with bytes := self.bytes ++ output }) else (false, self)

def shouldFlush (self : OutputBatch) (nowMs : Nat) : Bool :=
  self.bytes ≠ [] ∧
    (outputBatchBytes ≤ self.bytes.length ∨ outputBatchDelayMs ≤ nowMs - self.startedAtMs)

end OutputBatch

inductive VtCommand where
  | feed (bytes : Bytes)
  | resize (rows columns : Nat)
deriving DecidableEq, Repr

/-- The output bytes among the commands given to a terminal. -/
def fedBytes (commands : List VtCommand) : Bytes :=
  commands.flatMap fun
    | .feed bytes => bytes
    | .resize _ _ => []

@[simp] theorem fedBytes_append (xs ys : List VtCommand) :
    fedBytes (xs ++ ys) = fedBytes xs ++ fedBytes ys := List.flatMap_append

@[simp] theorem fedBytes_feed (bytes : Bytes) : fedBytes [.feed bytes] = bytes := by
  simp [fedBytes]

@[simp] theorem fedBytes_resize (rows columns : Nat) : fedBytes [.resize rows columns] = [] := rfl

/-- The terminal is known by the commands it was given. What checkpoint() paints
after its reset sequence is a function of them, `paint`. -/
structure Builder where
  paint : List VtCommand → Bytes
  commands : List VtCommand
  rows : Nat
  columns : Nat
  bytesSinceCheckpoint : Nat

namespace Builder

def feed (self : Builder) (bytes : Bytes) : Builder :=
  { self with
    bytesSinceCheckpoint := self.bytesSinceCheckpoint + bytes.length
    commands := self.commands ++ [.feed bytes] }

def resize (self : Builder) (rows columns : Nat) (allocated : Bool) : Option Builder :=
  if rows = 0 ∨ columns = 0 ∨ maxDimension < rows ∨ maxDimension < columns then none
  else if rows = self.rows ∧ columns = self.columns then some self
  else if !allocated then none
  else some { self with
    commands := self.commands ++ [.resize rows columns], rows := rows, columns := columns }

def shouldCheckpoint (self : Builder) (threshold : Nat) : Bool :=
  0 < threshold ∧ threshold ≤ self.bytesSinceCheckpoint

def checkpoint (self : Builder) : Bytes := 0x1b :: 0x63 :: self.paint self.commands

def didCheckpoint (self : Builder) : Builder := { self with bytesSinceCheckpoint := 0 }

end Builder

structure Stored where
  lastSequence : Nat := 0
  columns : Nat
  rows : Nat
  checkpoint : Option (Nat × Nat × Bytes) := none
deriving DecidableEq, Repr

/-- One transaction, rolled back as a whole when a statement fails. -/
def Stored.replaceRecoveryCheckpoint (self : Stored) (sequence version : Nat) (payload : Bytes)
    (columns rows : Nat) (statements : Bool) : Option (Nat × Stored) :=
  if version = 0 ∨ payload = [] ∨ columns = 0 ∨ rows = 0 then none
  else if sequence < self.lastSequence ∨ !statements then none
  else some (sequence, ⟨sequence, columns, rows, some (sequence, version, payload)⟩)

/-- Everything a viewer can be brought up to date from, and the outputs that
were published, one for each sequence. -/
structure Journal where
  history : LiveHistory := .empty
  pending : OutputBatch := {}
  builder : Builder
  stored : Stored
  sequence : Nat := 0
  outputs : List Bytes := []

def Journal.record (self : Journal) (output : Bytes) (nowMs : Nat) (allocated : Bool) : Journal :=
  { self with
    sequence := self.sequence + 1
    outputs := self.outputs ++ [output]
    history := self.history.remember (self.sequence + 1) output nowMs allocated }

end Machinen.Session
