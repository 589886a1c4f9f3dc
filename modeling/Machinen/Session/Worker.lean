import Machinen.Session.Recovery
import Machinen.Lib.LeaseTable

/-! The session worker: its client slots, its leases and every handler of its
event loop. The kernel's answers are inputs of a handler: how far the clock moves,
which allocations and statements succeed, and how many bytes the terminal takes.
A connection accepts some of the frames written to it and refuses others. -/
namespace Machinen.Session

def leaseDurationMs : Nat := 30000

abbrev Slot := Fin maxClients

def slots : List Slot := List.finRange maxClients

/-- What an attach asked for and what the worker held at that moment. -/
structure Attach where
  afterSequence : Nat
  recovery : RecoveryMode
  sequence : Nat
  commands : List VtCommand

/-- The connection behind a descriptor: the frames it has taken, in order, and
which writes succeed on it, by their number. -/
structure Link where
  conn : Nat := 0
  accepts : Nat → Bool := fun _ => true
  delivered : List Frame := []
  attach : Option Attach := none

structure Client where
  fd : Option Nat := none
  ready : Bool := false
  requested : LeaseFlags := fun _ => false
  granted : LeaseFlags := fun _ => false
  control : Bool := false
  clientId : Nat := 0
  clientPid : Nat := 0
  clientName : Bytes := []
  connectedAtMs : Nat := 0
  lastHeartbeatMs : Nat := 0
  geometryEvents : Bool := false
  link : Link := {}

def Client.viewer (client : Client) : Bool := client.fd.isSome && client.ready && !client.control

abbrev Lease := LeaseTable.Lease Nat

abbrev Leases := LeaseFlag → Lease

structure GeometryState where
  columns : Nat
  rows : Nat
  generation : Nat := 1
  positive : 0 < columns ∧ 0 < rows

structure Env where
  ticks : List Nat := []
  outcomes : List Bool := []
  room : List Nat := []
  telemetry : Bytes := []

inductive Effect where
  | input (bytes : Bytes)
  | window (columns rows : Nat)
  | signal (number : Nat)
deriving DecidableEq, Repr

/-- Uses of a slot that a step must not make: an assertion on a closed slot, a
write to one, and poll results of another connection. -/
inductive Misuse where
  | asserted (slot : Slot)
  | wrote (slot : Slot)
  | stalePoll (slot : Slot)
deriving DecidableEq, Repr

structure Worker where
  clients : Slot → Client := fun _ => {}
  leases : Leases := fun _ => ⟨none, 0⟩
  geometry : GeometryState
  broadcastOwner : Option Nat := none
  journal : Journal
  checkpointBytes : Nat
  nowMs : Nat := 1
  env : Env := {}
  effects : List Effect := []
  misuse : List Misuse := []
  crashed : Bool := false

structure Accepted where
  fd : Nat
  timeoutSet : Bool := true
  accepts : Nat → Bool := fun _ => true
  connectedAtMs : Nat := 0

namespace Worker

def setClient (w : Worker) (i : Slot) (client : Client) : Worker :=
  { w with clients := Function.update w.clients i client }

/-- A reading of the monotonic clock: the time is then `nowMs`. -/
def monotonicMilliseconds (w : Worker) : Worker :=
  { w with
    nowMs := w.nowMs + w.env.ticks.headD 0
    env := { w.env with ticks := w.env.ticks.tail } }

def outcome (w : Worker) : Bool × Worker :=
  (w.env.outcomes.headD true, { w with env := { w.env with outcomes := w.env.outcomes.tail } })

def assertFailed (w : Worker) (i : Slot) : Worker :=
  { w with misuse := w.misuse ++ [.asserted i], crashed := true }

def closeClient (w : Worker) (i : Slot) : Worker :=
  let fd := (w.clients i).fd
  { w.setClient i {} with
    leases := fun flag =>
      if (w.leases flag).fd = fd then { w.leases flag with fd := none } else w.leases flag }

def deliver (w : Worker) (i : Slot) (frame : Frame) : Worker :=
  let client := w.clients i
  w.setClient i { client with
    link := { client.link with delivered := client.link.delivered ++ [frame] } }

def writeFrame (w : Worker) (i : Slot) (frame : Frame) : Bool × Worker :=
  let client := w.clients i
  if maxFramePayload < frame.payload.length then (false, w)
  else if client.fd = none then (false, { w with misuse := w.misuse ++ [.wrote i] })
  else if client.link.accepts client.link.delivered.length then (true, w.deliver i frame)
  else (false, w)

def writeFrames (w : Worker) (i : Slot) : List Frame → Bool × Worker
  | [] => (true, w)
  | frame :: frames =>
    match w.writeFrame i frame with
    | (true, w) => writeFrames w i frames
    | (false, w) => (false, w)

/-- `... catch closeClient(client, leases)`. -/
def sendOrClose (w : Worker) (i : Slot) (frames : List Frame) : Worker :=
  match w.writeFrames i frames with
  | (true, w) => w
  | (false, w) => w.closeClient i

def expireLeases (w : Worker) : Worker :=
  { w with leases := fun flag =>
      if (w.leases flag).fd.isSome ∧ (w.leases flag).expiresMs ≤ w.nowMs then
        { w.leases flag with fd := none }
      else w.leases flag }

def alive (w : Worker) (i : Slot) : Bool :=
  (w.clients i).viewer && decide (w.nowMs - (w.clients i).lastHeartbeatMs < leaseDurationMs)

def setGranted (w : Worker) (i : Slot) (granted : LeaseFlags) : Worker :=
  w.setClient i { w.clients i with granted := granted }

def setLease (w : Worker) (flag : LeaseFlag) (lease : Lease) : Worker :=
  { w with leases := Function.update w.leases flag lease }

def grant (w : Worker) (i : Slot) (flag : LeaseFlag) : Worker :=
  let client := w.clients i
  if w.alive i && client.requested flag &&
      ((w.leases flag).fd = none || (w.leases flag).fd = client.fd) then
    (w.setGranted i (Function.update client.granted flag true)).setLease flag
      ⟨client.fd, client.lastHeartbeatMs + leaseDurationMs⟩
  else w

/-- One turn of the loop of refreshLeases, up to the frame it may send. -/
def regrant (w : Worker) (i : Slot) : Worker :=
  ((w.setGranted i fun _ => false).grant i .writer).grant i .resize

def refreshSlot (w : Worker) (i : Slot) : Worker :=
  let previous := (w.clients i).granted
  let w := w.regrant i
  let client := w.clients i
  if client.fd.isSome && client.ready && previous.mask != client.granted.mask then
    w.sendOrClose i [leaseFrame client.granted client.requested]
  else w

def refreshLeases (w : Worker) : Worker :=
  slots.foldl refreshSlot w.monotonicMilliseconds.expireLeases

def ownerClientId (w : Worker) : Option Nat :=
  match (w.leases .resize).fd with
  | none => none
  | some fd =>
    (slots.find? fun i =>
      decide ((w.clients i).fd = some fd) && (w.clients i).ready && !(w.clients i).control).map
      fun i => (w.clients i).clientId

def geometryFrame (w : Worker) : Frame :=
  ⟨.geometry, Bytes.be 2 w.geometry.columns ++ (Bytes.be 2 w.geometry.rows ++
    (Bytes.be 4 w.geometry.generation ++ Bytes.be 8 (w.ownerClientId.getD 0)))⟩

def broadcastGeometrySlot (w : Worker) (i : Slot) : Worker :=
  if (w.clients i).viewer && (w.clients i).geometryEvents then w.sendOrClose i [w.geometryFrame]
  else w

def broadcastGeometry (w : Worker) : Worker := slots.foldl broadcastGeometrySlot w

def setBroadcastOwner (w : Worker) (owner : Option Nat) : Worker :=
  { w with broadcastOwner := owner }

def refreshGeometryOwner (w : Worker) : Worker :=
  let w := w.refreshLeases
  let owner := w.ownerClientId
  if owner = w.broadcastOwner then w
  else (w.setBroadcastOwner owner).broadcastGeometry

def broadcastOutput (w : Worker) (sequence : Nat) (payload : Bytes) : Worker :=
  slots.foldl (fun w i =>
    if (w.clients i).viewer then w.sendOrClose i (sequencedOutput sequence payload) else w) w

/-- The assertion on the sequence is replaceRecoveryCheckpoint's. -/
def saveCheckpoint (w : Worker) : Worker :=
  let journal := w.journal
  let (allocated, w) := w.outcome
  if !allocated then w
  else if journal.sequence = 0 then { w with crashed := true }
  else
    let (statements, w) := w.outcome
    match journal.stored.replaceRecoveryCheckpoint journal.sequence formatVersion
        journal.builder.checkpoint journal.builder.columns journal.builder.rows statements with
    | none => w
    | some (persisted, stored) =>
      if persisted ≠ journal.sequence then { w with journal := { journal with stored := stored } }
      else { w with journal := { journal with
        stored := stored
        builder := journal.builder.didCheckpoint
        history := journal.history.reset journal.sequence } }

def recordOutput (w : Worker) (output : Bytes) : Worker :=
  let (allocated, w) := w.monotonicMilliseconds.outcome
  { w with journal := w.journal.record output w.nowMs allocated }

def publishOutput (w : Worker) (output : Bytes) : Worker :=
  let w := w.recordOutput output
  let w := w.broadcastOutput w.journal.sequence output
  if w.journal.builder.shouldCheckpoint w.checkpointBytes then w.saveCheckpoint else w

def setPending (w : Worker) (pending : OutputBatch) : Worker :=
  { w with journal := { w.journal with pending := pending } }

def flushOutput (w : Worker) : Worker :=
  if w.journal.pending.bytes = [] then w
  else (w.publishOutput w.journal.pending.bytes).setPending {}

def feed (w : Worker) (output : Bytes) : Worker :=
  { w with journal := { w.journal with builder := w.journal.builder.feed output } }

def bufferOutput (w : Worker) (output : Bytes) : Worker :=
  let (allocated, w) := w.monotonicMilliseconds.outcome
  match w.journal.pending.append output w.nowMs allocated with
  | (false, pending) =>
    ((w.setPending pending).flushOutput.feed output).publishOutput output
  | (true, pending) =>
    let w := (w.setPending pending).feed output
    if outputBatchBytes ≤ w.journal.pending.bytes.length then w.flushOutput else w

def drainPty (w : Worker) : List Bytes → Worker
  | [] => w
  | output :: more => if output = [] then w else (w.bufferOutput output).drainPty more

def heartbeat (w : Worker) (i : Slot) : Worker :=
  let w := w.monotonicMilliseconds
  w.setClient i { w.clients i with lastHeartbeatMs := w.nowMs }

/-- The terminal takes all the bytes or, when the write fails, some of them. -/
def writePty (w : Worker) (payload : Bytes) : Bool × Worker :=
  if payload = [] then (true, w)
  else
    let room := w.env.room.headD payload.length
    (payload.length ≤ room,
      { w with
        env := { w.env with room := w.env.room.tail }
        effects := w.effects ++ [.input (payload.take room)] })

def serviceInput (w : Worker) (i : Slot) (payload : Bytes) : Worker :=
  let w := (w.heartbeat i).refreshLeases
  let client := w.clients i
  if !client.control && !client.granted .writer then w
  else match w.writePty payload with
    | (true, w) => w
    | (false, w) => w.closeClient i

def nextGeneration (generation : Nat) : Nat :=
  if (generation + 1) % 2 ^ 32 = 0 then 1 else (generation + 1) % 2 ^ 32

def setBuilder (w : Worker) (builder : Builder) : Worker :=
  { w with journal := { w.journal with builder := builder } }

def resizeGeometry (w : Worker) (columns rows : Nat) (positive : 0 < columns ∧ 0 < rows) : Worker :=
  if w.geometry.columns ≠ columns ∨ w.geometry.rows ≠ rows then
    { w with geometry := {
        columns := columns
        rows := rows
        generation := nextGeneration w.geometry.generation
        positive := positive } }
  else w

def note (w : Worker) (effect : Effect) : Worker := { w with effects := w.effects ++ [effect] }

def applyWindow (w : Worker) (i : Slot) (columns rows : Nat)
    (positive : 0 < columns ∧ 0 < rows) : Worker :=
  let (allocated, w) := (w.note (.window columns rows)).outcome
  match w.journal.builder.resize rows columns allocated with
  | none => w.closeClient i
  | some builder => ((w.setBuilder builder).resizeGeometry columns rows positive).broadcastGeometry

def serviceClientResize (w : Worker) (i : Slot) (payload : Bytes) : Worker :=
  let w := (w.heartbeat i).refreshLeases
  let client := w.clients i
  if !client.control && !client.granted .resize then w
  else if payload.length ≠ 4 then w.closeClient i
  else
    let columns := Bytes.ofBe (payload.take 2)
    let rows := Bytes.ofBe (payload.drop 2)
    if positive : 0 < columns ∧ 0 < rows then
      if maxDimension < columns ∨ maxDimension < rows then w.closeClient i
      else w.applyWindow i columns rows positive
    else w.closeClient i

def serviceSignal (w : Worker) (i : Slot) (payload : Bytes) : Worker :=
  let client := w.clients i
  if !client.control && !client.granted .writer then
    w.sendOrClose i [failureFrame "writer lease required for signals"]
  else if payload.length ≠ 4 then w.closeClient i
  else
    let signal := Bytes.ofBe payload
    if signal = 0 ∨ 2 ^ 31 ≤ signal then w.closeClient i
    else match (w.note (.signal signal)).outcome with
      | (true, w) => w
      | (false, w) => w.closeClient i

/-- The payload is checked against the name's own length, then as text. -/
def applyClientInfo (w : Worker) (i : Slot) (payload : Bytes) : Bool × Worker :=
  if payload.length < clientInfoHeaderLength then (false, w)
  else
    let nameLength := Bytes.ofBe (Bytes.slice payload 4 1)
    let name := payload.drop clientInfoHeaderLength
    if clientNameCapacity < nameLength ∨ payload.length ≠ clientInfoHeaderLength + nameLength then
      (false, w)
    else if !(ByteArray.mk name.toArray).validateUTF8 then (false, w)
    else if name.any fun byte => byte < 0x20 || byte == 0x7f then (false, w)
    else (true, w.setClient i { w.clients i with
      clientPid := Bytes.ofBe (payload.take 4), clientName := name })

def attachedClient (client : Client) : Bytes :=
  Bytes.be 8 client.clientId ++ (Bytes.be 4 client.clientPid ++ (Bytes.be 8 client.connectedAtMs ++
    ([client.requested.mask, client.granted.mask, UInt8.ofNat client.clientName.length] ++
      client.clientName)))

/-- The items that fit; none when an item would pass the end of a frame. -/
def attachedClients (w : Worker) : List Slot → Bytes → Option Bytes
  | [], payload => some payload
  | i :: rest, payload =>
    let client := w.clients i
    if !client.viewer then w.attachedClients rest payload
    else if maxFramePayload < payload.length + clientListHeaderLength +
        (clientListItemHeaderLength + client.clientName.length) then none
    else w.attachedClients rest (payload ++ attachedClient client)

def viewerCount (w : Worker) : Nat := (slots.filter fun i => (w.clients i).viewer).length

def sendAttachedClients (w : Worker) (i : Slot) : Worker :=
  match w.attachedClients slots [] with
  | none => w.closeClient i
  | some items => w.sendOrClose i [⟨.clients, UInt8.ofNat w.viewerCount :: items⟩]

/-- transferControl up to its refreshLeases: the slot that was found gets both leases. -/
def assignLeases (w : Worker) (target : Slot) : Worker :=
  let w := w.heartbeat target
  { w with leases := fun _ => ⟨(w.clients target).fd, w.nowMs + leaseDurationMs⟩ }

def transferTarget (w : Worker) (targetId : Nat) : Option Slot :=
  slots.find? fun i => (w.clients i).viewer && decide ((w.clients i).clientId = targetId) &&
    (w.clients i).requested .writer && (w.clients i).requested .resize

def transferControl (w : Worker) (targetId : Nat) : Bool × Worker :=
  if targetId = 0 ∨ maxClientId < targetId then (false, w)
  else match w.transferTarget targetId with
    | none => (false, w)
    | some target =>
      let w := (w.assignLeases target).refreshLeases
      ((w.clients target).granted .writer && (w.clients target).granted .resize, w)

def serviceTakeControl (w : Worker) (i : Slot) (payload : Bytes) : Worker :=
  match w.transferControl (Bytes.ofBe payload) with
  | (false, w) => w.sendOrClose i [failureFrame "attached client not found"]
  | (true, w) => (w.sendOrClose i [⟨.takeControl, payload⟩]).broadcastGeometry

def serviceSessionControlFrame (w : Worker) (i : Slot) (frame : Frame) : Worker :=
  let control := (w.clients i).control
  match frame.kind with
  | .capabilities =>
    if !control || frame.payload ≠ [] then w.closeClient i
    else w.sendOrClose i [capabilitiesFrame]
  | .clientInfo =>
    let (applied, w) := w.applyClientInfo i frame.payload
    if control || !applied then w.closeClient i else w
  | .clients =>
    if !control || frame.payload ≠ [] then w.closeClient i else w.sendAttachedClients i
  | .takeControl =>
    if !control || frame.payload.length ≠ 8 then w.closeClient i
    else w.serviceTakeControl i frame.payload
  | .geometry =>
    if !control || frame.payload ≠ [] then w.closeClient i else w.sendOrClose i [w.geometryFrame]
  | _ => w

def serviceReadyClient (w : Worker) (i : Slot) (frame : Frame) : Worker :=
  match frame.kind with
  | .heartbeat => (w.heartbeat i).refreshLeases
  | .input => w.serviceInput i frame.payload
  | .resize => w.serviceClientResize i frame.payload
  | .signal => w.serviceSignal i frame.payload
  | .telemetry =>
    if frame.payload ≠ [] then w.closeClient i else w.sendOrClose i [⟨.telemetry, w.env.telemetry⟩]
  | .capabilities | .clientInfo | .clients | .takeControl | .geometry =>
    w.serviceSessionControlFrame i frame
  | _ => w.closeClient i

/-- Its assertion stops the worker; the write fails on its own otherwise. -/
def sendHistoryComplete (w : Worker) (i : Slot) : Bool × Worker :=
  if (w.clients i).fd = none then (false, w.assertFailed i)
  else w.writeFrame i (historyCompleteFrame w.journal.sequence)

def needsCheckpoint (w : Worker) (requestedAfter : Nat) (recovery : RecoveryMode) : Bool :=
  decide (recovery = .latestScreen) || !w.journal.history.complete ||
    decide (requestedAfter < w.journal.history.baseSequence)

def sendRecovery (w : Worker) (i : Slot) (frames : List Frame) : Bool × Worker :=
  match w.writeFrames i frames with
  | (false, w) => (false, w)
  | (true, w) => w.sendHistoryComplete i

def eventFrames (w : Worker) (requestedAfter : Nat) : List Frame :=
  (w.journal.history.after requestedAfter).flatMap fun event =>
    sequencedOutput event.sequence event.payload

def replayClient (w : Worker) (i : Slot) (requestedAfter : Nat) (recovery : RecoveryMode) :
    Bool × Worker :=
  if w.needsCheckpoint requestedAfter recovery then
    match w.outcome with
    | (false, w) => (false, w)
    | (true, w) =>
      w.sendRecovery i (checkpointFrames w.journal.sequence w.journal.builder.checkpoint)
  else w.sendRecovery i (w.eventFrames requestedAfter)

def admitted (client : Client) (request : AttachRequest) (nowMs : Nat) (journal : Journal) : Client :=
  { client with
    clientId := request.clientId
    control := request.control
    requested := request.requested
    geometryEvents := request.geometryEvents
    ready := true
    lastHeartbeatMs := nowMs
    link := { client.link with attach := some {
      afterSequence := request.afterSequence
      recovery := request.recovery
      sequence := journal.sequence
      commands := journal.builder.commands } } }

/-- beginClient up to its refreshLeases: the checked request is stored. -/
def enrol (w : Worker) (i : Slot) (request : AttachRequest) : Worker :=
  let w := w.monotonicMilliseconds
  w.setClient i (admitted (w.clients i) request w.nowMs w.journal)

/-- beginClient after its refreshLeases, which may have closed the client: the
fields of the slot are then those of an unused one. -/
def welcome (w : Worker) (i : Slot) (request : AttachRequest) : Bool × Worker :=
  let client := w.clients i
  if client.control then w.sendHistoryComplete i
  else if client.geometryEvents then
    match w.writeFrame i w.geometryFrame with
    | (false, w) => (false, w)
    | (true, w) => w.replayClient i request.afterSequence request.recovery
  else w.replayClient i request.afterSequence request.recovery

def beginClient (w : Worker) (i : Slot) (payload : Bytes) : Bool × Worker :=
  match attachRequest payload with
  | none => (false, w)
  | some request =>
    if !request.control && decide (maxViewerClients ≤ w.viewerCount) then (false, w)
    else (w.enrol i request).refreshLeases.welcome i request

/-- `frame` is what readFrame returns, none when it fails. -/
def serviceClient (w : Worker) (i : Slot) (frame : Option Frame) : Worker :=
  if (w.clients i).fd = none then w.assertFailed i
  else match frame with
    | none => w.closeClient i
    | some frame =>
      if !(w.clients i).ready then
        if frame.kind ≠ .attachRequest then w.closeClient i
        else match w.beginClient i frame.payload with
          | (true, w) => w
          | (false, w) => if w.crashed then w else w.closeClient i
      else w.serviceReadyClient i frame

def freeSlot (w : Worker) : Option Slot := slots.find? fun i => (w.clients i).fd.isNone

/-- `conn` names the connection. With every slot taken it is refused and closed,
which no slot shows. -/
def acceptClient (w : Worker) (accepted : Option Accepted) (conn : Nat) : Worker :=
  match accepted with
  | none => w
  | some accepted =>
    if !accepted.timeoutSet then w
    else match w.freeSlot with
      | none => w
      | some i =>
        let w := w.monotonicMilliseconds
        w.setClient i {
          fd := some accepted.fd
          connectedAtMs := accepted.connectedAtMs
          lastHeartbeatMs := w.nowMs
          link := { conn := conn, accepts := accepted.accepts } }

def broadcastExit (w : Worker) (code : Nat) : Worker :=
  slots.foldl (fun w i =>
    if (w.clients i).fd.isSome && (w.clients i).ready then w.sendOrClose i [exitFrame code] else w) w

end Worker
end Machinen.Session
