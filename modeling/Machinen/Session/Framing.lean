import Machinen.Session.Wire
import Machinen.Lib.Run

/-! Frames as bytes, and the messages that a reader puts together from frames: outputs by their
sequence numbers, checkpoints by the marks of their first and last chunk. -/
namespace Machinen.Session

def FrameType.toInt : FrameType → UInt8
  | .attachRequest => 0x41
  | .checkpoint => 0x43
  | .output => 0x4f
  | .sequencedOutput => 0x51
  | .input => 0x49
  | .resize => 0x52
  | .historyComplete => 0x48
  | .exit => 0x58
  | .failure => 0x45
  | .signal => 0x53
  | .lease => 0x4c
  | .heartbeat => 0x50
  | .telemetry => 0x54
  | .capabilities => 0x42
  | .clientInfo => 0x4e
  | .clients => 0x56
  | .takeControl => 0x4b
  | .geometry => 0x47

def FrameType.fromInt : UInt8 → Option FrameType
  | 0x41 => some .attachRequest
  | 0x43 => some .checkpoint
  | 0x4f => some .output
  | 0x51 => some .sequencedOutput
  | 0x49 => some .input
  | 0x52 => some .resize
  | 0x48 => some .historyComplete
  | 0x58 => some .exit
  | 0x45 => some .failure
  | 0x53 => some .signal
  | 0x4c => some .lease
  | 0x50 => some .heartbeat
  | 0x54 => some .telemetry
  | 0x42 => some .capabilities
  | 0x4e => some .clientInfo
  | 0x56 => some .clients
  | 0x4b => some .takeControl
  | 0x47 => some .geometry
  | _ => none

theorem FrameType.fromInt_toInt (kind : FrameType) : fromInt kind.toInt = some kind := by
  cases kind <;> rfl

inductive FrameError where
  | endOfStream
  | unknownFrame
  | frameTooLarge
deriving DecidableEq

namespace Frame

def writeFrame (frame : Frame) : Except FrameError Bytes :=
  if maxFramePayload < frame.payload.length then .error .frameTooLarge
  else .ok (frame.kind.toInt :: (Bytes.be 4 frame.payload.length ++ frame.payload))

/-- The bytes asked for, and those after them. -/
def readExact (stream : Bytes) (count : Nat) : Except FrameError (Bytes × Bytes) :=
  if stream.length < count then .error .endOfStream else .ok (stream.take count, stream.drop count)

def readPayload (kind : FrameType) (length : Nat) (stream : Bytes) : Except FrameError (Frame × Bytes) :=
  if maxFramePayload < length then .error .frameTooLarge
  else do
    let (payload, stream) ← readExact stream length
    return (⟨kind, payload⟩, stream)

def readFrame (stream : Bytes) : Except FrameError (Frame × Bytes) := do
  let (header, stream) ← readExact stream 5
  match FrameType.fromInt (header.getD 0 0) with
  | none => .error .unknownFrame
  | some kind => readPayload kind (Bytes.ofBe (header.drop 1)) stream

def writeFrames : List Frame → Except FrameError Bytes
  | [] => .ok []
  | frame :: rest => do return (← frame.writeFrame) ++ (← writeFrames rest)

/-- Frames up to the end of the stream. Every frame takes some bytes, so the length of the
stream is fuel enough. -/
def readFrames : Nat → Bytes → Except FrameError (List Frame)
  | 0, _ => .ok []
  | fuel + 1, stream =>
    if stream = [] then .ok []
    else do
      let (frame, stream) ← readFrame stream
      return frame :: (← readFrames fuel stream)

theorem readExact_append (front rest : Bytes) {count : Nat} (length : front.length = count) :
    readExact (front ++ rest) count = .ok (front, rest) := by
  subst length
  unfold readExact
  rw [if_neg (by rw [List.length_append]; omega), List.take_left, List.drop_left]

theorem writeFrame_ok {frame : Frame} (fits : frame.payload.length ≤ maxFramePayload) :
    frame.writeFrame = .ok (frame.kind.toInt :: (Bytes.be 4 frame.payload.length ++ frame.payload)) :=
  if_neg (Nat.not_lt.mpr fits)

theorem readFrame_written {frame : Frame} (fits : frame.payload.length ≤ maxFramePayload) (rest : Bytes) :
    readFrame (frame.kind.toInt :: (Bytes.be 4 frame.payload.length ++ frame.payload) ++ rest) =
      .ok (frame, rest) := by
  have split : frame.kind.toInt :: (Bytes.be 4 frame.payload.length ++ frame.payload) ++ rest =
      (frame.kind.toInt :: Bytes.be 4 frame.payload.length) ++ (frame.payload ++ rest) := by
    rw [List.cons_append, List.append_assoc, List.cons_append]
  have five : (frame.kind.toInt :: Bytes.be 4 frame.payload.length).length = 5 := by
    rw [List.length_cons, Bytes.be_length]
  have small : frame.payload.length < 256 ^ 4 := Nat.lt_of_le_of_lt fits (by decide)
  unfold readFrame
  rw [split, readExact_append _ _ five]
  have kind := FrameType.fromInt_toInt frame.kind
  have payload := readExact_append frame.payload rest rfl
  dsimp only [bind, Except.bind]
  rw [List.getD_cons_zero, List.drop_succ_cons, List.drop_zero, kind, Bytes.ofBe_be 4 _ small]
  dsimp only [readPayload]
  rw [if_neg (Nat.not_lt.mpr fits), payload]
  rfl

theorem readFrames_written (frames : List Frame)
    (fits : ∀ frame ∈ frames, frame.payload.length ≤ maxFramePayload) :
    ∃ stream, writeFrames frames = .ok stream ∧
      ∀ fuel, stream.length ≤ fuel → readFrames fuel stream = .ok frames := by
  induction frames with
  | nil => exact ⟨[], rfl, fun fuel _ => by cases fuel <;> rfl⟩
  | cons frame rest ih =>
    have fit := fits frame List.mem_cons_self
    obtain ⟨stream, written, read⟩ := ih fun other listed => fits other (List.mem_cons_of_mem frame listed)
    refine ⟨frame.kind.toInt :: (Bytes.be 4 frame.payload.length ++ frame.payload) ++ stream, ?_,
      fun fuel enough => ?_⟩
    · unfold writeFrames
      rw [writeFrame_ok fit, written]
      rfl
    · rw [List.length_append, List.length_cons] at enough
      cases fuel with
      | zero => omega
      | succ fuel =>
        unfold readFrames
        rw [if_neg nofun, readFrame_written fit]
        change (do return frame :: (← readFrames fuel stream)) = _
        rw [read fuel (by omega)]
        rfl

end Frame

inductive Message where
  | output (sequence : UInt64) (payload : Bytes)
  | checkpoint (sequence : UInt64) (payload : Bytes)
deriving DecidableEq

namespace Message

def sequence : Message → UInt64
  | .output sequence _ | .checkpoint sequence _ => sequence

def payload : Message → Bytes
  | .output _ payload | .checkpoint _ payload => payload

def frames : Message → List Frame
  | .output sequence payload => sequencedOutput sequence.toNat payload
  | .checkpoint sequence payload => checkpointFrames sequence.toNat payload

end Message

namespace Frame

def sequence (frame : Frame) : UInt64 := UInt64.ofNat (Bytes.ofBe (frame.payload.take 8))

def marks (frame : Frame) : UInt8 := frame.payload.getD 12 0

def isFirst (frame : Frame) : Bool := frame.marks &&& 1 != 0

def isLast (frame : Frame) : Bool := frame.marks &&& 2 != 0

/-- The bytes after the header of a chunk. -/
def body (frame : Frame) : Bytes :=
  match frame.kind with
  | .checkpoint => frame.payload.drop checkpointHeaderLength
  | _ => frame.payload.drop sequenceHeaderLength

end Frame

/-- What a reader has of the messages, the newest first, and of a checkpoint whose last chunk is
still to come. -/
structure Assembly where
  messages : List Message := []
  begun : Option (UInt64 × Bytes) := none

/-- A chunk of output goes on with an output of its sequence. -/
def addOutput (messages : List Message) (sequence : UInt64) (chunk : Bytes) : List Message :=
  match messages with
  | .output last bytes :: earlier =>
    if last = sequence then .output last (bytes ++ chunk) :: earlier else .output sequence chunk :: messages
  | _ => .output sequence chunk :: messages

namespace Assembly

/-- The first chunk begins a checkpoint; the others go on with one of their sequence. -/
def begin? (a : Assembly) (frame : Frame) : Option Bytes :=
  match a.begun with
  | none => if frame.isFirst then some frame.body else none
  | some (sequence, bytes) =>
    if !frame.isFirst && sequence == frame.sequence then some (bytes ++ frame.body) else none

def receive (a : Assembly) (frame : Frame) : Option Assembly :=
  match frame.kind with
  | .sequencedOutput =>
    if frame.payload.length < sequenceHeaderLength ∨ a.begun.isSome then none
    else some { a with messages := addOutput a.messages frame.sequence frame.body }
  | .checkpoint =>
    if frame.payload.length < checkpointHeaderLength then none
    else (a.begin? frame).map fun bytes =>
      if frame.isLast then ⟨.checkpoint frame.sequence bytes :: a.messages, none⟩
      else { a with begun := some (frame.sequence, bytes) }
  | _ => none

end Assembly

def reassemble (frames : List Frame) : Option (List Message) :=
  (Run.exec Assembly.receive {} frames).bind fun a =>
    if a.begun.isSome then none else some a.messages.reverse

section Headers

variable (sequence : UInt64) (chunk : Bytes)

theorem sequence_be (rest : Bytes) : UInt64.ofNat
    (Bytes.ofBe ((Bytes.be 8 sequence.toNat ++ rest).take 8)) = sequence := by
  rw [List.take_left' (Bytes.be_length ..), Bytes.ofBe_be 8 _ sequence.toNat_lt, UInt64.ofNat_toNat]

theorem outputFrame_sequence : (sequencedOutputFrame sequence.toNat chunk).sequence = sequence :=
  sequence_be sequence chunk

theorem outputFrame_body : (sequencedOutputFrame sequence.toNat chunk).body = chunk :=
  List.drop_left' (Bytes.be_length ..)

def checkpointFrame (sequence : Nat) (marks : UInt8) (chunk : Bytes) : Frame :=
  ⟨.checkpoint, Bytes.be 8 sequence ++ (Bytes.be 4 formatVersion ++ (marks :: chunk))⟩

variable (marks : UInt8)

theorem checkpointFrame_sequence : (checkpointFrame sequence.toNat marks chunk).sequence = sequence :=
  sequence_be sequence _

theorem checkpointFrame_split : (checkpointFrame sequence.toNat marks chunk).payload =
    (Bytes.be 8 sequence.toNat ++ Bytes.be 4 formatVersion) ++ (marks :: chunk) :=
  (List.append_assoc ..).symm

theorem checkpointFrame_header : (Bytes.be 8 sequence.toNat ++ Bytes.be 4 formatVersion).length = 12 := by
  rw [List.length_append, Bytes.be_length, Bytes.be_length]

theorem checkpointFrame_marks : (checkpointFrame sequence.toNat marks chunk).marks = marks := by
  unfold Frame.marks
  rw [checkpointFrame_split, List.getD_eq_getElem?_getD,
    List.getElem?_append_right (Nat.le_of_eq (checkpointFrame_header sequence)), checkpointFrame_header]
  rfl

theorem checkpointFrame_body : (checkpointFrame sequence.toNat marks chunk).body = chunk := by
  change (checkpointFrame sequence.toNat marks chunk).payload.drop 13 = chunk
  rw [checkpointFrame_split, List.drop_append, checkpointFrame_header,
    List.drop_of_length_le (Nat.le_trans (Nat.le_of_eq (checkpointFrame_header sequence)) (by decide))]
  rfl

theorem checkpointFrame_length : (checkpointFrame sequence.toNat marks chunk).payload.length =
    checkpointHeaderLength + chunk.length := by
  rw [checkpointFrame_split, List.length_append, checkpointFrame_header, List.length_cons]
  unfold checkpointHeaderLength
  omega

end Headers

/-- The marks of the chunk between two bounds. -/
def marksOf (payload : Bytes) (bounds : Nat × Nat) : UInt8 :=
  (if bounds.1 = 0 then 1 else 0) + (if bounds.2 = payload.length then 2 else 0)

def chunkOf (payload : Bytes) (bounds : Nat × Nat) : Bytes :=
  Bytes.slice payload bounds.1 (bounds.2 - bounds.1)

theorem marksOf_first (payload : Bytes) (bounds : Nat × Nat) :
    (marksOf payload bounds &&& 1 != 0) = decide (bounds.1 = 0) := by
  unfold marksOf
  by_cases first : bounds.1 = 0
  · rw [if_pos first, decide_eq_true first]
    split <;> rfl
  · rw [if_neg first, decide_eq_false first]
    split <;> rfl

theorem marksOf_last (payload : Bytes) (bounds : Nat × Nat) :
    (marksOf payload bounds &&& 2 != 0) = decide (bounds.2 = payload.length) := by
  unfold marksOf
  by_cases last : bounds.2 = payload.length
  · rw [if_pos last, decide_eq_true last]
    split <;> rfl
  · rw [if_neg last, decide_eq_false last]
    split <;> rfl

theorem checkpointFrames_eq (sequence : Nat) (payload : Bytes) : checkpointFrames sequence payload =
    (chunkBounds (maxFramePayload - checkpointHeaderLength) payload.length payload.length
      0).map fun bounds =>
      checkpointFrame sequence (marksOf payload bounds) (chunkOf payload bounds) := rfl

theorem sequencedOutput_eq (sequence : Nat) (payload : Bytes) : sequencedOutput sequence payload =
    (chunkBounds (maxFramePayload - sequenceHeaderLength) payload.length payload.length 0).map fun bounds =>
      sequencedOutputFrame sequence (chunkOf payload bounds) := rfl

/-- Just the first chunk starts at the offset, and just the last one ends with the payload. -/
theorem chunkBounds_ends {chunkSize length fuel offset : Nat} (positive : 0 < chunkSize)
    (enough : length ≤ offset + fuel)
    {k : Nat} {bounds : Nat × Nat} (found : (chunkBounds chunkSize length fuel offset)[k]? = some bounds) :
    offset ≤ bounds.1 ∧ (bounds.1 = offset ↔ k = 0) ∧
      (bounds.2 = length ↔ k + 1 = (chunkBounds chunkSize length fuel offset).length) := by
  induction fuel generalizing offset k with
  | zero => cases found
  | succ fuel ih =>
    simp only [chunkBounds] at found ⊢
    split at found
    · rename_i inside
      rw [if_pos inside, List.length_cons]
      cases k with
      | zero =>
        cases found
        refine ⟨Nat.le_refl _, iff_of_true rfl rfl, ?_⟩
        dsimp only
        cases fuel with
        | zero =>
          rw [show chunkBounds chunkSize length 0 (min (offset + chunkSize) length) = [] from rfl,
            List.length_nil]
          omega
        | succ fuel =>
          simp only [chunkBounds]
          split
          · rw [List.length_cons]
            omega
          · rw [List.length_nil]
            omega
      | succ k =>
        obtain ⟨after, first, last⟩ := ih (by omega) found
        exact ⟨by omega, by omega, last.trans (by omega)⟩
    · cases found

theorem addOutput_twice (messages : List Message) (sequence : UInt64) (first second : Bytes) :
    addOutput (addOutput messages sequence first) sequence second =
      addOutput messages sequence (first ++ second) := by
  have goes_on : ∀ earlier bytes chunk, addOutput (.output sequence bytes :: earlier) sequence chunk =
      .output sequence (bytes ++ chunk) :: earlier := fun _ _ _ => if_pos rfl
  match messages with
  | [] => exact goes_on [] first second
  | .checkpoint _ _ :: _ => exact goes_on _ first second
  | .output last bytes :: earlier =>
    by_cases same : last = sequence
    · subst same
      rw [goes_on, goes_on, goes_on, List.append_assoc]
    · have starts : ∀ chunk, addOutput (.output last bytes :: earlier) sequence chunk =
          .output sequence chunk :: .output last bytes :: earlier := fun _ => if_neg same
      rw [starts, starts, goes_on]

theorem receive_outputFrame (messages : List Message) (sequence : UInt64) (chunk : Bytes) :
    Assembly.receive ⟨messages, none⟩ (sequencedOutputFrame sequence.toNat chunk) =
      some ⟨addOutput messages sequence chunk, none⟩ := by
  have long : ¬ ((sequencedOutputFrame sequence.toNat chunk).payload.length < sequenceHeaderLength ∨
      (none : Option (UInt64 × Bytes)).isSome = true) := by
    rw [sequencedOutputFrame, List.length_append, Bytes.be_length]
    unfold sequenceHeaderLength
    simp
  have kind : (sequencedOutputFrame sequence.toNat chunk).kind = .sequencedOutput := rfl
  unfold Assembly.receive
  rw [kind]
  dsimp only
  rw [if_neg long, outputFrame_sequence, outputFrame_body]

theorem receive_checkpointFrame (messages : List Message) (begun : Option (UInt64 × Bytes))
    (sequence : UInt64) (marks : UInt8)
    (chunk : Bytes) : Assembly.receive ⟨messages, begun⟩ (checkpointFrame sequence.toNat marks chunk) =
      (Assembly.begin? ⟨messages, begun⟩ (checkpointFrame sequence.toNat marks chunk)).map fun bytes =>
        if marks &&& 2 != 0 then ⟨.checkpoint sequence bytes :: messages, none⟩ else ⟨messages,
          some (sequence, bytes)⟩ := by
  have long : ¬ (checkpointFrame sequence.toNat marks chunk).payload.length < checkpointHeaderLength := by
    rw [checkpointFrame_length]
    omega
  have kind : (checkpointFrame sequence.toNat marks chunk).kind = .checkpoint := rfl
  unfold Assembly.receive
  rw [kind]
  dsimp only
  rw [if_neg long]
  unfold Frame.isLast
  rw [checkpointFrame_marks, checkpointFrame_sequence]

/-- The messages after one more; one without a byte has no frame. -/
def join (messages : List Message) (message : Message) : List Message :=
  if message.payload = [] then messages
  else match message with
    | .output sequence payload => addOutput messages sequence payload
    | .checkpoint sequence payload => .checkpoint sequence payload :: messages

theorem chunk_take (payload : Bytes) (offset stop : Nat) (ordered : offset ≤ stop) :
    payload.take offset ++ chunkOf payload (offset, stop) = payload.take stop := by
  have split := (List.take_append_drop offset (payload.take stop)).symm
  rw [List.take_take, Nat.min_eq_left ordered, List.drop_take] at split
  exact split.symm

theorem chunk_drop (payload : Bytes) (offset stop : Nat) (ordered : offset ≤ stop) :
    chunkOf payload (offset, stop) ++ payload.drop stop = payload.drop offset := by
  have split := List.take_append_drop (stop - offset) (payload.drop offset)
  rw [List.drop_drop, Nat.add_sub_cancel' ordered] at split
  exact split

theorem receive_output (sequence : UInt64) (payload : Bytes) (chunkSize : Nat) (positive : 0 < chunkSize)
    (fuel offset : Nat) (messages : List Message) (enough : payload.length ≤ offset + fuel) :
    Run.exec Assembly.receive ⟨messages, none⟩
      ((chunkBounds chunkSize payload.length fuel offset).map fun bounds =>
      sequencedOutputFrame sequence.toNat (chunkOf payload bounds)) =
    some ⟨if payload.drop offset = [] then messages else addOutput messages sequence (payload.drop offset),
      none⟩ := by
  induction fuel generalizing offset messages with
  | zero =>
    rw [if_pos (List.drop_eq_nil_of_le (by omega))]
    rfl
  | succ fuel ih =>
    simp only [chunkBounds]
    split
    · rename_i inside
      have later : payload.drop offset ≠ [] := fun none_ => by
        have := List.drop_eq_nil_iff.mp none_
        omega
      have whole := chunk_drop payload offset (min (offset + chunkSize) payload.length) (by omega)
      rw [List.map_cons, Run.exec, receive_outputFrame, Option.bind_some, ih _ _ (by omega), if_neg later]
      split
      · rename_i last
        rw [last, List.append_nil] at whole
        rw [whole]
      · rw [addOutput_twice, whole]
    · rw [if_pos (List.drop_eq_nil_of_le (by omega))]
      rfl

/-- The checkpoint of which everything before the offset is there. -/
def begunAt (sequence : UInt64) (payload : Bytes) (offset : Nat) : Option (UInt64 × Bytes) :=
  if offset = 0 then none else some (sequence, payload.take offset)

theorem begin_chunk (messages : List Message) (sequence : UInt64) (payload : Bytes) (offset stop : Nat)
    (ordered : offset ≤ stop) :
    Assembly.begin? ⟨messages, begunAt sequence payload offset⟩
      (checkpointFrame sequence.toNat (marksOf payload (offset, stop))
      (chunkOf payload (offset, stop))) = some (payload.take stop) := by
  have taken := chunk_take payload offset stop ordered
  unfold Assembly.begin? begunAt Frame.isFirst
  rw [checkpointFrame_marks, marksOf_first, checkpointFrame_sequence, checkpointFrame_body]
  by_cases start : offset = 0
  · subst start
    rw [if_pos rfl]
    exact congrArg some taken
  · rw [if_neg start]
    dsimp only
    rw [decide_eq_false start, beq_self_eq_true, Bool.not_false, Bool.and_true, if_pos rfl, taken]

theorem receive_checkpoint (sequence : UInt64) (payload : Bytes) (chunkSize : Nat)
    (positive : 0 < chunkSize) (fuel offset : Nat)
    (messages : List Message) (inside : offset < payload.length) (enough : payload.length ≤ offset + fuel) :
    Run.exec Assembly.receive ⟨messages, begunAt sequence payload offset⟩
      ((chunkBounds chunkSize payload.length fuel offset).map fun bounds =>
        checkpointFrame sequence.toNat (marksOf payload bounds) (chunkOf payload bounds)) =
    some ⟨.checkpoint sequence payload :: messages, none⟩ := by
  induction fuel generalizing offset with
  | zero => omega
  | succ fuel ih =>
    simp only [chunkBounds]
    have begun := begin_chunk messages sequence payload offset (min (offset + chunkSize) payload.length)
      (by omega)
    have next := ih (min (offset + chunkSize) payload.length)
    rw [if_pos inside, List.map_cons, Run.exec, receive_checkpointFrame, begun, Option.map_some,
      Option.bind_some, marksOf_last]
    simp only [decide_eq_true_eq]
    split
    · rename_i last
      rw [last, List.take_length]
      cases fuel with
      | zero => rfl
      | succ fuel =>
        simp only [chunkBounds]
        rw [if_neg (Nat.lt_irrefl _)]
        rfl
    · have rest := next (by omega) (by omega)
      rw [begunAt, if_neg (by omega)] at rest
      exact rest

theorem receive_message (messages : List Message) (message : Message) :
    Run.exec Assembly.receive ⟨messages, none⟩ message.frames = some ⟨join messages message, none⟩ := by
  cases message with
  | output sequence payload =>
    have received := receive_output sequence payload (maxFramePayload - sequenceHeaderLength) (by decide)
      payload.length 0 messages (by omega)
    rw [List.drop_zero] at received
    exact received
  | checkpoint sequence payload =>
    unfold join
    split
    · rename_i empty
      change payload = [] at empty
      subst empty
      rfl
    · rename_i some_
      exact receive_checkpoint sequence payload (maxFramePayload - checkpointHeaderLength) (by decide)
        payload.length 0 messages (List.length_pos_iff.mpr some_) (by omega)

theorem reassemble_frames (messages : List Message) :
    reassemble (messages.flatMap Message.frames) = some (messages.foldl join []).reverse := by
  have run : ∀ before, Run.exec Assembly.receive ⟨before, none⟩ (messages.flatMap Message.frames) =
      some ⟨messages.foldl join before, none⟩ := by
    induction messages with
    | nil => exact fun _ => rfl
    | cons message rest ih =>
      intro before
      rw [List.flatMap_cons, Run.exec_append, receive_message, Option.bind_some, ih, List.foldl_cons]
  unfold reassemble
  rw [run, Option.bind_some]
  rfl

/-- An output does not follow one of its own sequence. -/
def Message.Apart : Message → Message → Prop
  | .output first _, .output second _ => first ≠ second
  | _, _ => True

/-- Messages that a reader can tell from each other, and from nothing. -/
def Separate (messages : List Message) : Prop :=
  (∀ message ∈ messages, message.payload ≠ []) ∧ messages.IsChain Message.Apart

theorem addOutput_cases (messages : List Message) (sequence : UInt64) (chunk : Bytes) :
    (addOutput messages sequence chunk = .output sequence chunk :: messages ∧
      ∀ last ∈ messages.head?, Message.Apart last (.output sequence chunk)) ∨
    (addOutput messages sequence chunk).length ≤ messages.length ∧
      ∃ last ∈ messages.head?, ¬ Message.Apart last (.output sequence chunk) := by
  match messages with
  | [] => exact .inl ⟨rfl, nofun⟩
  | .checkpoint _ _ :: _ =>
    refine .inl ⟨rfl, fun last head => ?_⟩
    cases head
    trivial
  | .output last bytes :: earlier =>
    by_cases same : last = sequence
    · subst same
      have joined : addOutput (.output last bytes :: earlier) last chunk =
        .output last (bytes ++ chunk) :: earlier := if_pos rfl
      exact .inr ⟨by rw [joined]; exact Nat.le_refl _, _, rfl, fun apart => apart rfl⟩
    · refine .inl ⟨if_neg same, fun message head => ?_⟩
      cases head
      exact same

theorem join_cases (messages : List Message) (message : Message) :
    (join messages message = message :: messages ∧ message.payload ≠ [] ∧ ∀ last ∈ messages.head?,
    Message.Apart last message) ∨ (join messages message).length ≤ messages.length ∧
      ¬ (message.payload ≠ [] ∧ ∀ last ∈ messages.head?, Message.Apart last message) := by
  unfold join
  split
  · rename_i empty
    exact .inr ⟨Nat.le_refl _, fun both => both.1 empty⟩
  · rename_i some_
    cases message with
    | output sequence payload =>
      rcases addOutput_cases messages sequence payload with ⟨added, apart⟩ | ⟨short, last, head, same⟩
      · exact .inl ⟨added, some_, apart⟩
      · exact .inr ⟨short, fun both => same (both.2 last head)⟩
    | checkpoint sequence payload =>
      refine .inl ⟨rfl, some_, fun last _ => ?_⟩
      cases last <;> trivial

theorem join_length (messages : List Message) (message : Message) :
    (join messages message).length ≤ messages.length + 1 := by
  rcases join_cases messages message with ⟨added, -⟩ | ⟨short, -⟩
  · exact Nat.le_of_eq (by rw [added, List.length_cons])
  · omega

theorem foldl_join_length (messages before : List Message) :
    (messages.foldl join before).length ≤ before.length + messages.length := by
  induction messages generalizing before with
  | nil => exact Nat.le_refl _
  | cons message rest ih =>
    have one := join_length before message
    have later := ih (join before message)
    rw [List.foldl_cons, List.length_cons]
    omega

theorem foldl_join_iff (messages before : List Message) :
    messages.foldl join before = messages.reverse ++ before ↔
    (∀ message ∈ messages, message.payload ≠ []) ∧
      (before.head?.toList ++ messages).IsChain Message.Apart := by
  induction messages generalizing before with
  | nil =>
    refine iff_of_true rfl ⟨nofun, ?_⟩
    cases before.head? with
    | none => exact .nil
    | some last => exact .singleton last
  | cons message rest ih =>
    have chain : (before.head?.toList ++ message :: rest).IsChain Message.Apart ↔
        (∀ last ∈ before.head?, Message.Apart last message) ∧ (message :: rest).IsChain Message.Apart := by
      cases before.head? with
      | none => simp
      | some last => simp
    rw [List.foldl_cons, List.reverse_cons, List.append_assoc, List.singleton_append, chain,
      List.forall_mem_cons]
    rcases join_cases before message with ⟨added, some_, apart⟩ | ⟨short, lost⟩
    · rw [added, ih]
      exact ⟨fun both => ⟨⟨some_, both.1⟩, apart, both.2⟩, fun all => ⟨all.1.2, all.2.2⟩⟩
    · have length := foldl_join_length rest (join before message)
      refine iff_of_false (fun same => ?_) fun all => lost ⟨all.1.1, all.2.1⟩
      rw [same, List.length_append, List.length_reverse, List.length_cons] at length
      omega

theorem frames_fit (message : Message) : ∀ frame ∈ message.frames,
    frame.payload.length ≤ maxFramePayload := by
  cases message with
  | output sequence payload => exact fun _ => sequencedOutput_fits
  | checkpoint sequence payload => exact fun _ => checkpointFrames_fits

theorem frames_sequence (message : Message) :
    ∀ frame ∈ message.frames, frame.sequence = message.sequence := by
  cases message with
  | output sequence payload =>
    intro frame listed
    change frame ∈ sequencedOutput sequence.toNat payload at listed
    rw [sequencedOutput_eq] at listed
    obtain ⟨bounds, -, rfl⟩ := List.mem_map.mp listed
    exact outputFrame_sequence sequence _
  | checkpoint sequence payload =>
    intro frame listed
    change frame ∈ checkpointFrames sequence.toNat payload at listed
    rw [checkpointFrames_eq] at listed
    obtain ⟨bounds, -, rfl⟩ := List.mem_map.mp listed
    exact checkpointFrame_sequence sequence _ _

theorem frames_join (message : Message) : message.frames.flatMap Frame.body = message.payload := by
  cases message with
  | output sequence payload =>
    change (sequencedOutput sequence.toNat payload).flatMap Frame.body = payload
    simp only [sequencedOutput_eq, List.flatMap_map, outputFrame_body]
    exact chunks_join payload (by decide) payload.length 0 (by omega)
  | checkpoint sequence payload =>
    change (checkpointFrames sequence.toNat payload).flatMap Frame.body = payload
    simp only [checkpointFrames_eq, List.flatMap_map, checkpointFrame_body]
    exact chunks_join payload (by decide) payload.length 0 (by omega)

theorem checkpoint_marks (sequence : UInt64) (payload : Bytes) {k : Nat} {frame : Frame}
    (found : (checkpointFrames sequence.toNat payload)[k]? = some frame) :
    (frame.isFirst = true ↔ k = 0) ∧ (frame.isLast = true ↔
      k + 1 = (checkpointFrames sequence.toNat payload).length) := by
  rw [checkpointFrames_eq, List.getElem?_map] at found
  obtain ⟨bounds, cut, rfl⟩ := Option.map_eq_some_iff.mp found
  obtain ⟨-, first, last⟩ := chunkBounds_ends (by decide) (by omega) cut
  rw [checkpointFrames_eq, List.length_map, ← first, ← last]
  unfold Frame.isFirst Frame.isLast
  rw [checkpointFrame_marks, marksOf_first, marksOf_last, decide_eq_true_eq, decide_eq_true_eq]
  exact ⟨.rfl, .rfl⟩

/-- The chunks of every message fit into frames, carry its sequence and join to it, and those of a
checkpoint have their marks at its two ends. A stream of messages is read back frame by frame, and
message by message just when no message is empty or repeats the sequence of an output before it. -/
theorem framing_reassembles :
    (∀ message : Message, (∀ frame ∈ message.frames, frame.payload.length ≤ maxFramePayload ∧
      frame.sequence = message.sequence) ∧ message.frames.flatMap Frame.body = message.payload) ∧
    (∀ (sequence : UInt64) (payload : Bytes) (k : Nat) (frame : Frame),
      (Message.checkpoint sequence payload).frames[k]? = some frame →
      (frame.isFirst = true ↔ k = 0) ∧ (frame.isLast = true ↔
        k + 1 = (Message.checkpoint sequence payload).frames.length)) ∧
    ∀ messages : List Message, ∃ stream, Frame.writeFrames (messages.flatMap Message.frames) = .ok stream ∧
      Frame.readFrames stream.length stream = .ok (messages.flatMap Message.frames) ∧
      (reassemble (messages.flatMap Message.frames) = some messages ↔ Separate messages) := by
  refine ⟨fun message => ⟨fun frame listed =>
    ⟨frames_fit message frame listed, frames_sequence message frame listed⟩,
    frames_join message⟩, fun sequence payload k frame => checkpoint_marks sequence payload,
      fun messages => ?_⟩
  obtain ⟨stream, written, read⟩ := Frame.readFrames_written (messages.flatMap Message.frames) fun frame
    listed => by
    obtain ⟨message, -, cut⟩ := List.mem_flatMap.mp listed
    exact frames_fit message frame cut
  refine ⟨stream, written, read _ (Nat.le_refl _), ?_⟩
  have whole := foldl_join_iff messages []
  rw [List.append_nil] at whole
  rw [reassemble_frames, Option.some_inj, List.reverse_eq_iff, whole]
  exact .rfl

/-- An empty output has no frame; and an output that fills a frame and one byte more under the same
sequence are the frames of one output, so nothing that reads the stream can tell them apart. -/
theorem stream_ambiguous :
    ¬ (∃ recover : Bytes → List Message, ∀ messages stream,
      Frame.writeFrames (messages.flatMap Message.frames) = .ok stream → recover stream = messages) ∧
    ∀ sequence (full : Bytes) byte, full.length = maxFramePayload - sequenceHeaderLength →
      [Message.output sequence full, .output sequence [byte]].flatMap Message.frames =
        [Message.output sequence (full ++ [byte])].flatMap Message.frames := by
  constructor
  · rintro ⟨recover, exact_⟩
    have none_ := exact_ [] [] rfl
    have empty := exact_ [.output 1 []] [] rfl
    exact nomatch none_.symm.trans empty
  · intro sequence full byte length
    have one : chunkBounds (maxFramePayload - sequenceHeaderLength) (maxFramePayload - sequenceHeaderLength)
        (maxFramePayload - sequenceHeaderLength) 0 = [(0, 32760)] := rfl
    have two : chunkBounds (maxFramePayload - sequenceHeaderLength)
      (maxFramePayload - sequenceHeaderLength + 1)
        (maxFramePayload - sequenceHeaderLength + 1) 0 = [(0, 32760), (32760, 32761)] := rfl
    have before : chunkOf full (0, 32760) = full := List.take_of_length_le (Nat.le_of_eq length)
    have before' : chunkOf (full ++ [byte]) (0, 32760) = full := List.take_left' length
    have after_ : chunkOf (full ++ [byte]) (32760, 32761) = [byte] :=
      congrArg (List.take 1) (List.drop_left' length)
    simp only [List.flatMap_cons, List.flatMap_nil, List.append_nil, Message.frames, sequencedOutput_eq,
      List.length_append,
      List.length_singleton, length, one, two, List.map_cons, List.map_nil, before, before', after_]
    rfl

end Machinen.Session
