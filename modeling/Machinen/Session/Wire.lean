import Machinen.Lib.Bytes

/-! The frames of the session protocol and their payloads: what a viewer asks
for when it attaches, and how output and checkpoints are cut into frames. -/
namespace Machinen.Session

def maxAttachedClients : Nat := 8
def maxClientId : Nat := 9007199254740991
def maxViewerClients : Nat := maxAttachedClients
def maxClients : Nat := maxViewerClients + 4
def maxFramePayload : Nat := 32 * 1024
def protocolVersion : Nat := 2
def attachPayloadLength : Nat := 24
def sequenceHeaderLength : Nat := 8
def checkpointHeaderLength : Nat := 13
def clientInfoHeaderLength : Nat := 8
def clientNameCapacity : Nat := 127
def clientListHeaderLength : Nat := 1
def clientListItemHeaderLength : Nat := 23
def maxDimension : Nat := 1000
def formatVersion : Nat := 1

inductive FrameType where
  | attachRequest | checkpoint | output | sequencedOutput | input | resize | historyComplete
  | exit | failure | signal | lease | heartbeat | telemetry | capabilities | clientInfo | clients
  | takeControl | geometry
deriving DecidableEq, Repr

structure Frame where
  kind : FrameType
  payload : Bytes
deriving DecidableEq, Repr

inductive RecoveryMode where
  | journal
  | latestScreen
deriving DecidableEq, Repr

def RecoveryMode.fromInt : Nat → Option RecoveryMode
  | 0 => some .journal
  | 1 => some .latestScreen
  | _ => none

inductive LeaseFlag where
  | writer
  | resize
deriving DecidableEq, Repr

/-- A set of leases: the bits 1 and 2 of a flag byte. -/
abbrev LeaseFlags := LeaseFlag → Bool

def LeaseFlags.mask (flags : LeaseFlags) : UInt8 :=
  (if flags .writer then 1 else 0) + (if flags .resize then 2 else 0)

structure AttachRequest where
  requested : LeaseFlags
  control : Bool
  recovery : RecoveryMode
  afterSequence : Nat
  clientId : Nat
  geometryEvents : Bool

/-- The checks of beginClient on the payload, in its order. The fields it stores
before a later check fails are erased by its caller, which closes the client. -/
def attachRequest (payload : Bytes) : Option AttachRequest :=
  if payload.length ≠ attachPayloadLength then none
  else if Bytes.ofBe (payload.take 4) ≠ protocolVersion then none
  else
    let flags := Bytes.ofBe (Bytes.slice payload 4 1)
    if 8 ≤ flags then none
    else match RecoveryMode.fromInt (Bytes.ofBe (Bytes.slice payload 5 1)) with
      | none => none
      | some recovery =>
        let clientId := Bytes.ofBe (Bytes.slice payload 16 8)
        if clientId = 0 ∨ maxClientId < clientId then none
        else
          let features := Bytes.ofBe (Bytes.slice payload 6 1)
          if 2 ≤ features ∨ Bytes.ofBe (Bytes.slice payload 7 1) ≠ 0 then none
          else some {
            requested := fun
              | .writer => flags.testBit 0
              | .resize => flags.testBit 1
            control := flags.testBit 2
            recovery := recovery
            afterSequence := Bytes.ofBe (Bytes.slice payload 8 8)
            clientId := clientId
            geometryEvents := features.testBit 0 }

/-- The loop that cuts a payload into pieces: from `offset`, the bounds of each
piece. Every piece moves the offset, so the length of the payload is fuel enough. -/
def chunkBounds (chunkSize length : Nat) : Nat → Nat → List (Nat × Nat)
  | 0, _ => []
  | fuel + 1, offset =>
    if offset < length then
      let stop := min (offset + chunkSize) length
      (offset, stop) :: chunkBounds chunkSize length fuel stop
    else []

def sequencedOutputFrame (sequence : Nat) (chunk : Bytes) : Frame :=
  ⟨.sequencedOutput, Bytes.be 8 sequence ++ chunk⟩

/-- What sendSequencedOutput writes. -/
def sequencedOutput (sequence : Nat) (output : Bytes) : List Frame :=
  (chunkBounds (maxFramePayload - sequenceHeaderLength) output.length output.length 0).map
    fun (offset, stop) => sequencedOutputFrame sequence (Bytes.slice output offset (stop - offset))

/-- What sendCheckpoint writes: bit 0 marks the first piece and bit 1 the last. -/
def checkpointFrames (sequence : Nat) (payload : Bytes) : List Frame :=
  (chunkBounds (maxFramePayload - checkpointHeaderLength) payload.length payload.length 0).map
    fun (offset, stop) =>
      let marks : UInt8 :=
        (if offset = 0 then 1 else 0) + (if stop = payload.length then 2 else 0)
      ⟨.checkpoint, Bytes.be 8 sequence ++ (Bytes.be 4 formatVersion ++
        (marks :: Bytes.slice payload offset (stop - offset)))⟩

def historyCompleteFrame (sequence : Nat) : Frame := ⟨.historyComplete, Bytes.be 8 sequence⟩

def leaseFrame (granted requested : LeaseFlags) : Frame :=
  ⟨.lease, [granted.mask, requested.mask]⟩

def failureFrame (text : String) : Frame := ⟨.failure, text.toUTF8.data.toList⟩

def exitFrame (code : Nat) : Frame := ⟨.exit, Bytes.be 4 code⟩

def capabilitiesFrame : Frame := ⟨.capabilities, Bytes.be 4 7⟩

/-- The frames that build the picture of the terminal on the other side. -/
def Frame.isStream (frame : Frame) : Bool :=
  match frame.kind with
  | .checkpoint | .sequencedOutput | .historyComplete => true
  | _ => false

def stream (frames : List Frame) : List Frame := frames.filter Frame.isStream

@[simp] theorem stream_append (xs ys : List Frame) : stream (xs ++ ys) = stream xs ++ stream ys :=
  List.filter_append xs ys

theorem mem_chunkBounds {chunkSize length fuel offset : Nat} {bounds : Nat × Nat}
    (found : bounds ∈ chunkBounds chunkSize length fuel offset) :
    bounds.1 ≤ bounds.2 ∧ bounds.2 - bounds.1 ≤ chunkSize := by
  induction fuel generalizing offset with
  | zero => exact absurd found List.not_mem_nil
  | succ fuel ih =>
    simp only [chunkBounds] at found
    split at found
    · rcases List.mem_cons.mp found with here | later
      · subst here
        constructor <;> simp only <;> omega
      · exact ih later
    · exact absurd found List.not_mem_nil

/-- The pieces, joined again, are the payload from the offset on. -/
theorem chunks_join (payload : Bytes) {chunkSize : Nat} (positive : 0 < chunkSize) (fuel offset : Nat)
    (enough : payload.length ≤ offset + fuel) :
    (chunkBounds chunkSize payload.length fuel offset).flatMap
      (fun bounds => Bytes.slice payload bounds.1 (bounds.2 - bounds.1)) = payload.drop offset := by
  induction fuel generalizing offset with
  | zero => exact (List.drop_eq_nil_of_le (by omega)).symm
  | succ fuel ih =>
    simp only [chunkBounds]
    split
    · rename_i inside
      simp only [List.flatMap_cons]
      rw [ih _ (by omega)]
      have split := List.take_append_drop (min (offset + chunkSize) payload.length - offset)
        (payload.drop offset)
      rw [List.drop_drop, Nat.add_sub_cancel' (by omega)] at split
      exact split
    · rename_i outside
      exact (List.drop_eq_nil_of_le (by omega)).symm

theorem sequencedOutput_stream (sequence : Nat) (output : Bytes) :
    stream (sequencedOutput sequence output) = sequencedOutput sequence output := by
  apply List.filter_eq_self.mpr
  intro frame found
  obtain ⟨bounds, -, rfl⟩ := List.mem_map.mp found
  rfl

theorem checkpointFrames_stream (sequence : Nat) (payload : Bytes) :
    stream (checkpointFrames sequence payload) = checkpointFrames sequence payload := by
  apply List.filter_eq_self.mpr
  intro frame found
  obtain ⟨bounds, -, rfl⟩ := List.mem_map.mp found
  rfl

/-- No piece is too long for a frame. -/
theorem sequencedOutput_fits {sequence : Nat} {output : Bytes} {frame : Frame}
    (found : frame ∈ sequencedOutput sequence output) : frame.payload.length ≤ maxFramePayload := by
  obtain ⟨bounds, cut, rfl⟩ := List.mem_map.mp found
  have short := (mem_chunkBounds cut).2
  have piece : (Bytes.slice output bounds.1 (bounds.2 - bounds.1)).length ≤ bounds.2 - bounds.1 :=
    List.length_take_le _ _
  simp only [sequencedOutputFrame, List.length_append, Bytes.be_length]
  simp only [maxFramePayload, sequenceHeaderLength] at short ⊢
  omega

theorem checkpointFrames_fits {sequence : Nat} {payload : Bytes} {frame : Frame}
    (found : frame ∈ checkpointFrames sequence payload) : frame.payload.length ≤ maxFramePayload := by
  obtain ⟨bounds, cut, rfl⟩ := List.mem_map.mp found
  have short := (mem_chunkBounds cut).2
  have piece : (Bytes.slice payload bounds.1 (bounds.2 - bounds.1)).length ≤ bounds.2 - bounds.1 :=
    List.length_take_le _ _
  simp only [List.length_append, List.length_cons, Bytes.be_length]
  simp only [maxFramePayload, checkpointHeaderLength] at short ⊢
  omega

end Machinen.Session
