import Machinen.Session.Leases

/-! Resuming a session. What a viewer has been sent is a recovery, the end of the
history it covers, and every later output; the history in memory, when it is
complete, is the list of outputs after the last checkpoint. -/
namespace Machinen.Session

/-- Outputs under consecutive sequences. -/
def numbered : Nat → List Bytes → List LiveOutput
  | _, [] => []
  | first, output :: more => ⟨first, output⟩ :: numbered (first + 1) more

def outputFrames (events : List LiveOutput) : List Frame :=
  events.flatMap fun event => sequencedOutput event.sequence event.payload

theorem numbered_append (first : Nat) (xs ys : List Bytes) :
    numbered first (xs ++ ys) = numbered first xs ++ numbered (first + xs.length) ys := by
  induction xs generalizing first with
  | nil => rfl
  | cons output more ih =>
    simp only [List.cons_append, numbered, ih, List.length_cons]
    rw [show first + 1 + more.length = first + (more.length + 1) by omega]

theorem mem_numbered {first : Nat} {outputs : List Bytes} {event : LiveOutput}
    (found : event ∈ numbered first outputs) : first ≤ event.sequence := by
  induction outputs generalizing first with
  | nil => exact absurd found List.not_mem_nil
  | cons output more ih =>
    rcases List.mem_cons.mp found with here | later
    · exact Nat.le_of_eq (congrArg LiveOutput.sequence here).symm
    · exact Nat.le_of_succ_le (ih later)

theorem numbered_after (base sequence : Nat) (known : base ≤ sequence) (outputs : List Bytes) :
    (numbered (base + 1) outputs).filter (fun event => sequence < event.sequence) =
      numbered (sequence + 1) (outputs.drop (sequence - base)) := by
  induction outputs generalizing base with
  | nil => simp [numbered]
  | cons output more ih =>
    rcases Nat.eq_or_lt_of_le known with same | before
    · subst same
      rw [Nat.sub_self, List.drop_zero]
      apply List.filter_eq_self.mpr
      intro event found
      exact decide_eq_true (mem_numbered found)
    · rw [show sequence - base = (sequence - (base + 1)) + 1 by omega, List.drop_succ_cons,
        ← ih (base + 1) before]
      simp only [numbered, List.filter_cons]
      rw [if_neg (by simp; omega)]

theorem outputFrames_append (xs ys : List LiveOutput) :
    outputFrames (xs ++ ys) = outputFrames xs ++ outputFrames ys := List.flatMap_append

theorem outputFrames_stream (events : List LiveOutput) :
    stream (outputFrames events) = outputFrames events := by
  induction events with
  | nil => rfl
  | cons event more ih =>
    have split : outputFrames (event :: more) =
        sequencedOutput event.sequence event.payload ++ outputFrames more := List.flatMap_cons
    rw [split, stream_append, sequencedOutput_stream, ih]

/-- The recovery state: what was published, what memory and the terminal know of
it, and the bytes given to the terminal but not published yet. -/
structure Journal.Sound (unpublished : Bytes) (j : Journal) : Prop where
  counted : j.outputs.length = j.sequence
  base : j.history.baseSequence ≤ j.sequence
  events : j.history.complete = true →
    j.history.events = numbered (j.history.baseSequence + 1) (j.outputs.drop j.history.baseSequence)
  fed : fedBytes j.builder.commands = j.outputs.flatten ++ unpublished

/-- What a checkpoint of these commands is sent as. -/
def checkpointOf (paint : List VtCommand → Bytes) (commands : List VtCommand) : Bytes :=
  0x1b :: 0x63 :: paint commands

/-- The two recoveries: a picture of exactly the outputs so far, or the outputs
after the ones the viewer has. -/
def Recovers (j : Journal) (a : Attach) (recovery : List Frame) : Prop :=
  (recovery = checkpointFrames a.sequence (checkpointOf j.builder.paint a.commands) ∧
    fedBytes a.commands = (j.outputs.take a.sequence).flatten) ∨
  (a.recovery = .journal ∧ recovery =
    outputFrames (numbered (a.afterSequence + 1) ((j.outputs.take a.sequence).drop a.afterSequence)))

/-- The stream of one viewer. -/
def Served (j : Journal) (a : Attach) (frames : List Frame) : Prop :=
  a.sequence ≤ j.outputs.length ∧ ∃ recovery, Recovers j a recovery ∧
    frames = recovery ++ (historyCompleteFrame a.sequence ::
      outputFrames (numbered (a.sequence + 1) (j.outputs.drop a.sequence)))

structure UpToDate (j : Journal) (client : Client) : Prop where
  unready : client.ready = false → stream client.link.delivered = []
  served : client.viewer = true →
    ∃ a, client.link.attach = some a ∧ Served j a (stream client.link.delivered)

theorem upToDate_empty (j : Journal) : UpToDate j {} :=
  ⟨fun _ => rfl, fun viewer => absurd viewer Bool.false_ne_true⟩

/-- The journals agree on everything a viewer can see. -/
structure SameOutput (j j' : Journal) : Prop where
  history : j'.history = j.history
  pending : j'.pending = j.pending
  sequence : j'.sequence = j.sequence
  outputs : j'.outputs = j.outputs
  paint : j'.builder.paint = j.builder.paint
  fed : fedBytes j'.builder.commands = fedBytes j.builder.commands

theorem SameOutput.refl (j : Journal) : SameOutput j j := ⟨rfl, rfl, rfl, rfl, rfl, rfl⟩

theorem SameOutput.trans {a b c : Journal} (first : SameOutput a b) (second : SameOutput b c) :
    SameOutput a c :=
  ⟨second.history.trans first.history, second.pending.trans first.pending,
    second.sequence.trans first.sequence, second.outputs.trans first.outputs,
    second.paint.trans first.paint, second.fed.trans first.fed⟩

variable {unpublished output read : Bytes} {j : Journal} {w : Worker} {i : Slot}

theorem Journal.Sound.same {j' : Journal} (sound : j.Sound unpublished)
    (same : SameOutput j j') : j'.Sound unpublished where
  counted := by rw [same.outputs, same.sequence]; exact sound.counted
  base := by rw [same.history, same.sequence]; exact sound.base
  events := by rw [same.history, same.outputs]; exact sound.events
  fed := by rw [same.fed, same.outputs]; exact sound.fed

theorem UpToDate.same {j' : Journal} {client : Client} (known : UpToDate j client)
    (outputs : j'.outputs = j.outputs) (paint : j'.builder.paint = j.builder.paint) :
    UpToDate j' client := by
  refine ⟨known.unready, fun viewer => ?_⟩
  obtain ⟨a, attached, served⟩ := known.served viewer
  refine ⟨a, attached, ?_⟩
  unfold Served Recovers at served ⊢
  rwa [outputs, paint]

theorem UpToDate.kept {before after : Client} (known : UpToDate j before)
    (kept : Kept [] before after) : UpToDate j after := by
  have stream : stream after.link.delivered = stream before.link.delivered := by
    rw [kept.stream, List.append_nil]
  constructor
  · intro unready
    rw [stream]
    exact known.unready (kept.ready ▸ unready)
  · intro viewer
    obtain ⟨a, attached, served⟩ := known.served (kept.viewer ▸ viewer)
    exact ⟨a, kept.attach.trans attached, stream ▸ served⟩

/-- A slot after a handler that publishes nothing: still the same client, or closed. -/
def Settled (before after : Client) : Prop := Kept [] before after ∨ after = {}

theorem Settled.trans {a b c : Client} (first : Settled a b) (second : Settled b c) :
    Settled a c := by
  rcases second with kept' | closed
  · rcases first with kept | empty
    · left
      simpa using kept.trans kept'
    · exact .inr ((kept'.unused empty).trans empty)
  · exact .inr closed

theorem Follows.settled {a b : Client} (follows : Follows [] a b) : Settled a b := by
  rcases follows with kept | ⟨-, empty, -⟩
  · left
    simpa only [ite_self] using kept
  · exact .inr empty

theorem UpToDate.settled {before after : Client} (known : UpToDate j before)
    (settled : Settled before after) : UpToDate j after := by
  rcases settled with kept | closed
  · exact known.kept kept
  · rw [closed]
    exact upToDate_empty j

namespace Worker

/-- A handler that publishes nothing. -/
structure Settles (w w' : Worker) : Prop where
  journal : SameOutput w.journal w'.journal
  slot : ∀ i, Settled (w.clients i) (w'.clients i)

theorem Settles.refl (w : Worker) : Settles w w :=
  ⟨SameOutput.refl _, fun _ => .inl (Kept.refl _)⟩

theorem Settles.trans {a b c : Worker} (first : Settles a b) (second : Settles b c) :
    Settles a c :=
  ⟨first.journal.trans second.journal, fun i => (first.slot i).trans (second.slot i)⟩

theorem Carries.settles {w' : Worker} (carries : Carries [] w w') : Settles w w' where
  journal := by rw [carries.journal]; exact SameOutput.refl _
  slot := fun i => (carries.slot i).settled

theorem closeClient_settles (w : Worker) (i : Slot) : Settles w (w.closeClient i) where
  journal := SameOutput.refl _
  slot := by
    intro j
    by_cases here : j = i
    · subst here
      exact .inr (closeClient_same w j)
    · rw [closeClient_other w here]
      exact .inl (Kept.refl _)

theorem setClient_settles (w : Worker) (i : Slot) (client : Client)
    (kept : Kept [] (w.clients i) client) : Settles w (w.setClient i client) where
  journal := SameOutput.refl _
  slot := by
    intro j
    by_cases here : j = i
    · subst here
      rw [setClient_same]
      exact .inl kept
    · rw [setClient_other w here]
      exact .inl (Kept.refl _)

theorem noteMisuse_settles (w : Worker) (misuse : List Misuse) :
    Settles w { w with misuse := misuse } := ⟨SameOutput.refl _, fun _ => .inl (Kept.refl _)⟩

theorem sendOrClose_settles (w : Worker) (i : Slot) (frame : Frame)
    (outside : frame.isStream = false) : Settles w (w.sendOrClose i [frame]) := by
  by_cases fits : frame.payload.length ≤ maxFramePayload
  · by_cases opened : (w.clients i).fd.isSome = true
    · have step := sendOrClose_follows w i frame opened fits outside
      refine ⟨by rw [step.journal]; exact SameOutput.refl _, ?_⟩
      intro j
      by_cases here : j = i
      · subst here
        exact step.own.settled
      · rw [step.other j here]
        exact .inl (Kept.refl _)
    · have failed : w.writeFrame i frame = (false, { w with misuse := w.misuse ++ [.wrote i] }) := by
        simp only [writeFrame, if_neg (Nat.not_lt.mpr fits)]
        rw [if_pos (by simpa using opened)]
      simp only [sendOrClose, writeFrames, failed]
      exact (noteMisuse_settles w _).trans (closeClient_settles _ i)
  · have failed : w.writeFrame i frame = (false, w) := by
      simp only [writeFrame, if_pos (Nat.lt_of_not_le fits)]
    simp only [sendOrClose, writeFrames, failed]
    exact closeClient_settles w i

theorem open_ne {client : Client} (opened : client.fd.isSome = true) : client ≠ {} := by
  intro empty
  rw [empty] at opened
  exact Bool.false_ne_true opened

theorem heartbeat_settles (w : Worker) (i : Slot) (opened : (w.clients i).fd.isSome = true) :
    Settles w (w.heartbeat i) := by
  unfold heartbeat
  have aside : Settles w w.monotonicMilliseconds := ⟨SameOutput.refl _, fun _ => .inl (Kept.refl _)⟩
  apply aside.trans
  apply setClient_settles
  exact ⟨rfl, rfl, rfl, rfl, rfl, rfl, rfl, (List.append_nil _).symm,
    fun empty => absurd empty (open_ne opened)⟩

theorem beat_settles (w : Worker) (i : Slot) (opened : (w.clients i).fd.isSome = true) :
    Settles w (w.heartbeat i).refreshLeases :=
  (heartbeat_settles w i opened).trans (refreshLeases_carries (w.heartbeat i)).settles

theorem outcome_settles (w : Worker) : Settles w w.outcome.2 :=
  ⟨SameOutput.refl _, fun _ => .inl (Kept.refl _)⟩

theorem note_settles (w : Worker) (effect : Effect) : Settles w (w.note effect) :=
  ⟨SameOutput.refl _, fun _ => .inl (Kept.refl _)⟩

theorem writePty_settles (w : Worker) (payload : Bytes) : Settles w (w.writePty payload).2 := by
  unfold writePty
  split
  · exact Settles.refl w
  · exact ⟨SameOutput.refl _, fun _ => .inl (Kept.refl _)⟩

theorem serviceInput_settles (w : Worker) (i : Slot) (payload : Bytes)
    (opened : (w.clients i).fd.isSome = true) : Settles w (w.serviceInput i payload) := by
  have turn := beat_settles w i opened
  have written := writePty_settles (w.heartbeat i).refreshLeases payload
  simp only [serviceInput]
  split
  · exact turn
  · split
    · rename_i next done
      rw [done] at written
      exact turn.trans written
    · rename_i next failed
      rw [failed] at written
      exact (turn.trans written).trans (closeClient_settles next i)

theorem resizeGeometry_settles (w : Worker) (columns rows : Nat) (positive : 0 < columns ∧ 0 < rows) :
    Settles w (w.resizeGeometry columns rows positive) := by
  unfold resizeGeometry
  split
  · exact ⟨SameOutput.refl _, fun _ => .inl (Kept.refl _)⟩
  · exact Settles.refl w

theorem resize_sameOutput {b b' : Builder} {rows columns : Nat} {allocated : Bool}
    (resized : b.resize rows columns allocated = some b') :
    b'.paint = b.paint ∧ fedBytes b'.commands = fedBytes b.commands := by
  unfold Builder.resize at resized
  split at resized
  · exact absurd resized (by simp)
  split at resized
  · rw [Option.some.inj resized]
    exact ⟨rfl, rfl⟩
  split at resized
  · exact absurd resized (by simp)
  · rw [← Option.some.inj resized]
    refine ⟨rfl, ?_⟩
    simp

theorem applyWindow_settles (w : Worker) (i : Slot) (columns rows : Nat)
    (positive : 0 < columns ∧ 0 < rows) : Settles w (w.applyWindow i columns rows positive) := by
  have noted := (note_settles w (.window columns rows)).trans (outcome_settles _)
  simp only [applyWindow]
  split
  · exact noted.trans (closeClient_settles _ i)
  · rename_i builder resized
    obtain ⟨paint, fed⟩ := resize_sameOutput resized
    have set : Settles (w.note (.window columns rows)).outcome.2
        ((w.note (.window columns rows)).outcome.2.setBuilder builder) :=
      ⟨⟨rfl, rfl, rfl, rfl, paint, fed⟩, fun _ => .inl (Kept.refl _)⟩
    have shaped := (noted.trans set).trans (resizeGeometry_settles _ columns rows positive)
    exact shaped.trans (broadcastGeometry_carries _).settles

theorem serviceClientResize_settles (w : Worker) (i : Slot) (payload : Bytes)
    (opened : (w.clients i).fd.isSome = true) : Settles w (w.serviceClientResize i payload) := by
  have turn := beat_settles w i opened
  have closed := turn.trans (closeClient_settles (w.heartbeat i).refreshLeases i)
  simp only [serviceClientResize]
  split
  · exact turn
  split
  · exact closed
  split
  · split
    · exact closed
    · exact turn.trans (applyWindow_settles _ i _ _ _)
  · exact closed

theorem serviceSignal_settles (w : Worker) (i : Slot) (payload : Bytes) :
    Settles w (w.serviceSignal i payload) := by
  have noted := (note_settles w (.signal (Bytes.ofBe payload))).trans (outcome_settles _)
  simp only [serviceSignal]
  split
  · exact sendOrClose_settles w i _ rfl
  split
  · exact closeClient_settles w i
  split
  · exact closeClient_settles w i
  split
  · rename_i next delivered
    rwa [delivered] at noted
  · rename_i next refused
    rw [refused] at noted
    exact noted.trans (closeClient_settles next i)

theorem applyClientInfo_settles (w : Worker) (i : Slot) (payload : Bytes)
    (opened : (w.clients i).fd.isSome = true) : Settles w (w.applyClientInfo i payload).2 := by
  have unchanged := Settles.refl w
  simp only [applyClientInfo]
  split
  · exact unchanged
  split
  · exact unchanged
  split
  · exact unchanged
  split
  · exact unchanged
  · apply setClient_settles
    exact ⟨rfl, rfl, rfl, rfl, rfl, rfl, rfl, (List.append_nil _).symm,
      fun empty => absurd empty (open_ne opened)⟩

theorem sendAttachedClients_settles (w : Worker) (i : Slot) :
    Settles w (w.sendAttachedClients i) := by
  unfold sendAttachedClients
  split
  · exact closeClient_settles w i
  · exact sendOrClose_settles w i _ rfl

theorem assignLeases_settles (w : Worker) (target : Slot)
    (viewer : (w.clients target).viewer = true) : Settles w (w.assignLeases target) := by
  have beating := heartbeat_settles w target (Client.viewer_open viewer)
  exact beating.trans ⟨SameOutput.refl _, fun _ => .inl (Kept.refl _)⟩

theorem transferControl_settles (w : Worker) (targetId : Nat) :
    Settles w (w.transferControl targetId).2 := by
  simp only [transferControl]
  split
  · exact Settles.refl w
  split
  · exact Settles.refl w
  · rename_i target found
    dsimp only
    have assigned := assignLeases_settles w target (transferTarget_viewer found)
    exact assigned.trans (refreshLeases_carries (w.assignLeases target)).settles

theorem serviceTakeControl_settles (w : Worker) (i : Slot) (payload : Bytes) :
    Settles w (w.serviceTakeControl i payload) := by
  have moved := transferControl_settles w (Bytes.ofBe payload)
  simp only [serviceTakeControl]
  split
  · rename_i next refused
    rw [refused] at moved
    exact moved.trans (sendOrClose_settles next i _ rfl)
  · rename_i next done
    rw [done] at moved
    exact (moved.trans (sendOrClose_settles next i _ rfl)).trans (broadcastGeometry_carries _).settles

theorem serviceSessionControlFrame_settles (w : Worker) (i : Slot) (frame : Frame)
    (opened : (w.clients i).fd.isSome = true) : Settles w (w.serviceSessionControlFrame i frame) := by
  have named := applyClientInfo_settles w i frame.payload opened
  have closed := closeClient_settles w i
  simp only [serviceSessionControlFrame]
  split <;> try split
  · exact closed
  · exact sendOrClose_settles w i _ rfl
  · exact named.trans (closeClient_settles _ i)
  · exact named
  · exact closed
  · exact sendAttachedClients_settles w i
  · exact closed
  · exact serviceTakeControl_settles w i _
  · exact closed
  · exact sendOrClose_settles w i _ rfl
  · exact Settles.refl w

/-- A client that is attached already is never sent anything of the stream by its
own requests. -/
theorem serviceReadyClient_settles (w : Worker) (i : Slot) (frame : Frame)
    (opened : (w.clients i).fd.isSome = true) : Settles w (w.serviceReadyClient i frame) := by
  unfold serviceReadyClient
  split
  · exact beat_settles w i opened
  · exact serviceInput_settles w i _ opened
  · exact serviceClientResize_settles w i _ opened
  · exact serviceSignal_settles w i _
  · split
    · exact closeClient_settles w i
    · exact sendOrClose_settles w i _ rfl
  iterate 5 exact serviceSessionControlFrame_settles w i frame opened
  exact closeClient_settles w i

theorem outputFrames_fits {events : List LiveOutput} {frame : Frame}
    (found : frame ∈ outputFrames events) : frame.payload.length ≤ maxFramePayload := by
  obtain ⟨event, -, sent⟩ := List.mem_flatMap.mp found
  exact sequencedOutput_fits sent

theorem historyCompleteFrame_fits (sequence : Nat) :
    (historyCompleteFrame sequence).payload.length ≤ maxFramePayload := by
  simp only [historyCompleteFrame, Bytes.be_length]
  decide

/-- On an open slot a recovery is sent as a whole with its end, or something is refused. -/
theorem sendRecovery_open (w : Worker) (i : Slot) (frames : List Frame)
    (opened : (w.clients i).fd.isSome = true)
    (fits : ∀ frame ∈ frames, frame.payload.length ≤ maxFramePayload) :
    (w.sendRecovery i frames =
      (true, w.deliverAll i (frames ++ [historyCompleteFrame w.journal.sequence]))) ∨
    ∃ sent, w.sendRecovery i frames = (false, w.deliverAll i sent) := by
  unfold sendRecovery
  rcases writeFrames_eq w i frames opened fits with ⟨-, written⟩ | ⟨-, sent, written⟩
  · rw [written]
    have opened' : ((w.deliverAll i frames).clients i).fd.isSome = true := by
      simpa only [deliverAll, setClient_same] using opened
    have last := writeFrames_eq (w.deliverAll i frames) i
      [historyCompleteFrame (w.deliverAll i frames).journal.sequence] opened'
      (by intro frame only; rw [List.mem_singleton.mp only]; exact historyCompleteFrame_fits _)
    have present : ((w.deliverAll i frames).clients i).fd ≠ none := by
      intro absent
      rw [absent] at opened'
      exact Bool.false_ne_true opened'
    dsimp only
    simp only [sendHistoryComplete, if_neg present]
    simp only [writeFrames] at last
    have joined : ∀ more, (w.deliverAll i frames).deliverAll i more = w.deliverAll i (frames ++ more) := by
      intro more
      simp only [deliverAll, setClient_same, setClient_twice, List.append_assoc]
    rcases last with ⟨-, ended⟩ | ⟨-, sent, ended⟩
    · left
      rw [joined] at ended
      split at ended
      · rename_i next ok
        rw [ok]
        exact ended
      · exact absurd (congrArg Prod.fst ended) Bool.false_ne_true
    · right
      rw [joined] at ended
      split at ended
      · exact absurd (congrArg Prod.fst ended).symm Bool.false_ne_true
      · rename_i next refused
        rw [refused]
        exact ⟨_, ended⟩
  · right
    rw [written]
    exact ⟨sent, rfl⟩

/-- The same slots and the same journal. -/
def Unmoved (w w' : Worker) : Prop := w'.clients = w.clients ∧ w'.journal = w.journal

/-- The same also in being alive and without a misuse. -/
structure Beside (w w' : Worker) : Prop where
  clients : w'.clients = w.clients
  journal : w'.journal = w.journal
  crashed : w'.crashed = w.crashed
  misuse : w'.misuse = w.misuse

theorem writeFrames_closed (w : Worker) (i : Slot) (frames : List Frame)
    (closed : (w.clients i).fd = none) : Unmoved w (w.writeFrames i frames).2 := by
  induction frames generalizing w with
  | nil => exact ⟨rfl, rfl⟩
  | cons frame rest ih =>
    have refused : (w.writeFrame i frame).1 = false ∧ Unmoved w (w.writeFrame i frame).2 := by
      simp only [writeFrame, if_pos closed]
      split
      · exact ⟨rfl, rfl, rfl⟩
      · exact ⟨rfl, rfl, rfl⟩
    simp only [writeFrames]
    split
    · rename_i next written
      rw [written] at refused
      exact absurd refused.1.symm Bool.false_ne_true
    · rename_i next written
      rw [written] at refused
      exact refused.2

theorem sendRecovery_closed (w : Worker) (i : Slot) (frames : List Frame)
    (closed : (w.clients i).fd = none) :
    (w.sendRecovery i frames).1 = false ∧ Unmoved w (w.sendRecovery i frames).2 := by
  have written := writeFrames_closed w i frames closed
  unfold sendRecovery
  split
  · rename_i next refused
    rw [refused] at written
    exact ⟨rfl, written⟩
  · rename_i next sent
    rw [sent] at written
    have still : (next.clients i).fd = none := by rw [written.1]; exact closed
    simp only [sendHistoryComplete, if_pos still]
    exact ⟨trivial, written⟩

theorem replayClient_closed (w : Worker) (i : Slot) (requestedAfter : Nat) (recovery : RecoveryMode)
    (closed : (w.clients i).fd = none) :
    (w.replayClient i requestedAfter recovery).1 = false ∧
      Unmoved w (w.replayClient i requestedAfter recovery).2 := by
  unfold replayClient
  split
  · split
    · rename_i next failed
      have same : next = w.outcome.2 := by rw [failed]
      rw [same]
      exact ⟨rfl, rfl, rfl⟩
    · rename_i next allocated
      have same : next = w.outcome.2 := by rw [allocated]
      rw [same]
      exact sendRecovery_closed w.outcome.2 i _ closed
  · exact sendRecovery_closed w i _ closed

def attachOf (j : Journal) (request : AttachRequest) : Attach where
  afterSequence := request.afterSequence
  recovery := request.recovery
  sequence := j.sequence
  commands := j.builder.commands

theorem eventFrames_eq (w : Worker) (sound : w.journal.Sound unpublished)
    (complete : w.journal.history.complete = true) {after : Nat}
    (known : w.journal.history.baseSequence ≤ after) :
    w.eventFrames after = outputFrames (numbered (after + 1) (w.journal.outputs.drop after)) := by
  unfold eventFrames LiveHistory.after
  rw [sound.events complete, numbered_after _ _ known, List.drop_drop,
    Nat.add_sub_cancel' known]
  rfl

/-- On an open slot the replay is one of the two recoveries and its end, or
something is refused. -/
theorem replayClient_open (w : Worker) (i : Slot) (request : AttachRequest)
    (opened : (w.clients i).fd.isSome = true) (sound : w.journal.Sound []) :
    ∃ v, Beside w v ∧
      ((∃ recovery, Recovers w.journal (attachOf w.journal request) recovery ∧
        w.replayClient i request.afterSequence request.recovery =
          (true, v.deliverAll i (recovery ++ [historyCompleteFrame w.journal.sequence]))) ∨
      ∃ sent, w.replayClient i request.afterSequence request.recovery =
        (false, v.deliverAll i sent)) := by
  have everything : w.journal.outputs.take w.journal.sequence = w.journal.outputs :=
    List.take_of_length_le (Nat.le_of_eq sound.counted)
  unfold replayClient
  split
  · split
    · rename_i next failed
      have same : next = w.outcome.2 := by rw [failed]
      refine ⟨w.outcome.2, ⟨rfl, rfl, rfl, rfl⟩, .inr ⟨[], ?_⟩⟩
      rw [deliverAll_nil, same]
    · rename_i next allocated
      have same : next = w.outcome.2 := by rw [allocated]
      rw [same]
      refine ⟨w.outcome.2, ⟨rfl, rfl, rfl, rfl⟩, ?_⟩
      have sent := sendRecovery_open w.outcome.2 i
        (checkpointFrames w.outcome.2.journal.sequence w.outcome.2.journal.builder.checkpoint)
        opened (fun frame => checkpointFrames_fits)
      rcases sent with done | refused
      · left
        refine ⟨_, .inl ⟨rfl, ?_⟩, done⟩
        change fedBytes w.journal.builder.commands =
          (w.journal.outputs.take w.journal.sequence).flatten
        rw [everything, sound.fed, List.append_nil]
      · exact .inr refused
  · rename_i events
    simp only [needsCheckpoint, Bool.or_eq_true, decide_eq_true_eq, Bool.not_eq_true', not_or,
      Bool.not_eq_false, Nat.not_lt] at events
    obtain ⟨⟨mode, complete⟩, known⟩ := events
    have journal : request.recovery = .journal := by
      cases mode' : request.recovery with
      | journal => rfl
      | latestScreen => exact absurd mode' mode
    refine ⟨w, ⟨rfl, rfl, rfl, rfl⟩, ?_⟩
    rw [eventFrames_eq w sound complete known]
    rcases sendRecovery_open w i _ opened (fun frame => outputFrames_fits) with done | refused
    · left
      refine ⟨_, .inr ⟨journal, ?_⟩, done⟩
      change _ = outputFrames (numbered (request.afterSequence + 1)
        ((w.journal.outputs.take w.journal.sequence).drop request.afterSequence))
      rw [everything]
    · exact .inr refused

/-- The client of slot `i` is where an attach with this request puts it. -/
structure Admitted (w : Worker) (i : Slot) (request : AttachRequest) : Prop where
  opened : (w.clients i).fd.isSome = true
  ready : (w.clients i).ready = true
  control : (w.clients i).control = request.control
  attach : (w.clients i).link.attach = some (attachOf w.journal request)
  stream : stream (w.clients i).link.delivered = []

theorem recovers_stream {a : Attach} {recovery : List Frame}
    (recovers : Recovers j a recovery) : stream recovery = recovery := by
  rcases recovers with ⟨rfl, -⟩ | ⟨-, rfl⟩
  · exact checkpointFrames_stream _ _
  · exact outputFrames_stream _

theorem served_now (sound : j.Sound unpublished) (request : AttachRequest) {recovery : List Frame}
    (recovers : Recovers j (attachOf j request) recovery) :
    Served j (attachOf j request) (recovery ++ [historyCompleteFrame j.sequence]) := by
  refine ⟨Nat.le_of_eq sound.counted.symm, recovery, recovers, ?_⟩
  have nothing : j.outputs.drop (attachOf j request).sequence = [] :=
    List.drop_eq_nil_of_le (Nat.le_of_eq sound.counted)
  rw [nothing]
  rfl

/-- One slot is brought up to date and nothing else happens, or the attach fails. -/
structure Welcomed (w : Worker) (i : Slot) (result : Bool × Worker) : Prop where
  journal : result.2.journal = w.journal
  crashed : result.2.crashed = w.crashed
  misuse : result.2.misuse = w.misuse
  other : ∀ j, j ≠ i → result.2.clients j = w.clients j
  done : result.1 = true → UpToDate w.journal (result.2.clients i)
  own : (result.2.clients i).fd = (w.clients i).fd ∧
    (result.2.clients i).link.conn = (w.clients i).link.conn

theorem deliverAll_other (w : Worker) {j : Slot} (apart : j ≠ i) (frames : List Frame) :
    (w.deliverAll i frames).clients j = w.clients j := setClient_other w apart _

theorem deliverAll_fd (w : Worker) (i : Slot) (frames : List Frame) :
    ((w.deliverAll i frames).clients i).fd = (w.clients i).fd := by
  simp only [deliverAll, setClient_same]

theorem refused_welcome {v : Worker} (beside : Beside w v) (sent : List Frame) :
    Welcomed w i (false, v.deliverAll i sent) where
  journal := beside.journal
  crashed := beside.crashed
  misuse := beside.misuse
  other := by
    intro j apart
    rw [deliverAll_other v apart, beside.clients]
  done := fun impossible => absurd impossible Bool.false_ne_true
  own := by
    simp only [deliverAll, setClient_same, beside.clients, and_self]

theorem done_welcome {v : Worker} {request : AttachRequest} (beside : Beside w v)
    (sound : w.journal.Sound []) (admitted : Admitted w i request) (frames recovery : List Frame)
    (shown : stream frames = recovery ++ [historyCompleteFrame w.journal.sequence])
    (recovers : request.control = false → Recovers w.journal (attachOf w.journal request) recovery) :
    Welcomed w i (true, v.deliverAll i frames) where
  journal := beside.journal
  crashed := beside.crashed
  misuse := beside.misuse
  other := by
    intro j apart
    rw [deliverAll_other v apart, beside.clients]
  done := by
    intro _
    simp only [deliverAll, setClient_same, beside.clients]
    constructor
    · intro unready
      exact absurd (admitted.ready.symm.trans unready) Bool.noConfusion
    · intro viewer
      have control : request.control = false := by
        rw [← admitted.control]
        simp only [Client.viewer, Bool.and_eq_true, Bool.not_eq_true'] at viewer
        exact viewer.2
      refine ⟨attachOf w.journal request, admitted.attach, ?_⟩
      rw [stream_append, admitted.stream, List.nil_append, shown]
      exact served_now sound request (recovers control)
  own := by
    simp only [deliverAll, setClient_same, beside.clients, and_self]

theorem writeFrame_open (w : Worker) (i : Slot) (frame : Frame)
    (opened : (w.clients i).fd.isSome = true) (fits : frame.payload.length ≤ maxFramePayload) :
    w.writeFrame i frame = (true, w.deliverAll i [frame]) ∨ w.writeFrame i frame = (false, w) := by
  have present : (w.clients i).fd ≠ none := fun absent => by simp [absent] at opened
  simp only [writeFrame, if_neg (Nat.not_lt.mpr fits), if_neg present]
  split
  · exact .inl rfl
  · exact .inr rfl

theorem replay_welcome (w : Worker) (i : Slot) (request : AttachRequest)
    (sound : w.journal.Sound []) (admitted : Admitted w i request) :
    Welcomed w i (w.replayClient i request.afterSequence request.recovery) := by
  obtain ⟨v, beside, ⟨recovery, recovers, done⟩ | ⟨sent, refused⟩⟩ :=
    replayClient_open w i request admitted.opened sound
  · rw [done]
    refine done_welcome beside sound admitted _ recovery ?_ fun _ => recovers
    rw [stream_append, recovers_stream recovers]
    rfl
  · rw [refused]
    exact refused_welcome beside sent

theorem welcome_open (w : Worker) (i : Slot) (request : AttachRequest) (sound : w.journal.Sound [])
    (admitted : Admitted w i request) : Welcomed w i (w.welcome i request) := by
  have present : (w.clients i).fd ≠ none := fun absent => by
    have opened := admitted.opened
    simp [absent] at opened
  have stuck := refused_welcome (w := w) (i := i) ⟨rfl, rfl, rfl, rfl⟩ []
  rw [deliverAll_nil] at stuck
  simp only [welcome]
  split
  · rename_i control
    simp only [sendHistoryComplete, if_neg present]
    rcases writeFrame_open w i _ admitted.opened (historyCompleteFrame_fits w.journal.sequence)
      with sent | refused
    · rw [sent]
      apply done_welcome ⟨rfl, rfl, rfl, rfl⟩ sound admitted _ [] rfl
      intro viewer
      rw [← admitted.control, control] at viewer
      exact absurd viewer.symm Bool.false_ne_true
    · rw [refused]
      exact stuck
  split
  · rcases writeFrame_open w i _ admitted.opened (geometryFrame_fits w) with sent | refused
    · rw [sent]
      dsimp only
      have admitted' : Admitted (w.deliverAll i [w.geometryFrame]) i request := by
        constructor <;> simp only [deliverAll, setClient_same]
        · exact admitted.opened
        · exact admitted.ready
        · exact admitted.control
        · exact admitted.attach
        · rw [stream_append, admitted.stream]
          rfl
      have replayed := replay_welcome (w.deliverAll i [w.geometryFrame]) i request sound admitted'
      refine ⟨replayed.journal, replayed.crashed, replayed.misuse, fun j apart => ?_, replayed.done, ?_⟩
      · rw [replayed.other j apart, deliverAll_other w apart]
      · rw [replayed.own.1, replayed.own.2]
        simp only [deliverAll, setClient_same, and_self]
    · rw [refused]
      exact stuck
  · exact replay_welcome w i request sound admitted

theorem welcome_closed (w : Worker) (i : Slot) (request : AttachRequest) (closed : w.clients i = {}) :
    (w.welcome i request).1 = false ∧ Unmoved w (w.welcome i request).2 := by
  simp only [welcome, closed, Bool.false_eq_true, if_false]
  exact replayClient_closed w i _ _ (by rw [closed])

theorem enrol_admitted (w : Worker) (i : Slot) (request : AttachRequest)
    (opened : (w.clients i).fd.isSome = true) (fresh : stream (w.clients i).link.delivered = []) :
    Admitted (w.enrol i request) i request := by
  unfold enrol
  constructor <;> simp only [setClient_same]
  · exact opened
  · rfl
  · rfl
  · rfl
  · exact fresh

theorem enrol_other (w : Worker) {j : Slot} (apart : j ≠ i) (request : AttachRequest) :
    (w.enrol i request).clients j = w.clients j := setClient_other w.monotonicMilliseconds apart _

/-- A whole attach: the other slots go on or are lost, and slot `i` is brought up
to date, given up, or was lost before the recovery. -/
structure Begun (w : Worker) (i : Slot) (result : Bool × Worker) : Prop where
  journal : result.2.journal = w.journal
  other : ∀ j, j ≠ i → Settled (w.clients j) (result.2.clients j)
  own : result.1 = true → UpToDate w.journal (result.2.clients i)
  crashed : result.2.crashed = true → w.crashed = true ∨ result.2.clients i = {}

theorem begun_refused (w : Worker) (i : Slot) : Begun w i (false, w) where
  journal := rfl
  other := fun _ _ => .inl (Kept.refl _)
  own := fun impossible => absurd impossible Bool.false_ne_true
  crashed := .inl

theorem beginClient_begun (w : Worker) (i : Slot) (payload : Bytes)
    (opened : (w.clients i).fd.isSome = true) (sound : w.journal.Sound [])
    (fresh : stream (w.clients i).link.delivered = []) : Begun w i (w.beginClient i payload) := by
  unfold beginClient
  split
  · exact begun_refused w i
  · rename_i request _
    split
    · exact begun_refused w i
    have admitted := enrol_admitted w i request opened fresh
    have refreshed := refreshLeases_carries (w.enrol i request)
    have others : ∀ j, j ≠ i → Settled (w.clients j) ((w.enrol i request).refreshLeases.clients j) := by
      intro j apart
      have follows := (refreshed.slot j).settled
      rwa [enrol_other w apart] at follows
    have journal : (w.enrol i request).refreshLeases.journal = w.journal := by
      rw [refreshed.journal]
      rfl
    have alive : (w.enrol i request).refreshLeases.crashed = w.crashed := by
      rw [refreshed.crashed]
      rfl
    generalize (w.enrol i request).refreshLeases = v at refreshed others journal alive ⊢
    rcases refreshed.slot i with kept | ⟨-, empty, -⟩
    · rw [ite_self] at kept
      have admitted' : Admitted v i request := by
        constructor
        · rw [kept.fd]; exact admitted.opened
        · rw [kept.ready]; exact admitted.ready
        · rw [kept.control]; exact admitted.control
        · rw [kept.attach, journal]; exact admitted.attach
        · rw [kept.stream, List.append_nil]; exact admitted.stream
      have welcomed := welcome_open v i request (journal.symm ▸ sound) admitted'
      constructor
      · exact welcomed.journal.trans journal
      · intro j apart
        rw [welcomed.other j apart]
        exact others j apart
      · intro done
        exact journal ▸ welcomed.done done
      · intro crashed
        left
        rw [← alive, ← welcomed.crashed]
        exact crashed
    · obtain ⟨failed, clients, same⟩ := welcome_closed v i request empty
      constructor
      · exact same.trans journal
      · intro j apart
        rw [clients]
        exact others j apart
      · intro done
        exact absurd (failed.symm.trans done) Bool.false_ne_true
      · intro _
        right
        rw [clients, empty]

/-- A handler after which every viewer still has exactly what was published. -/
structure Serviced (w w' : Worker) : Prop where
  journal : SameOutput w.journal w'.journal
  slot : ∀ i, UpToDate w'.journal (w'.clients i)

theorem Settles.serviced {w' : Worker} (settles : Settles w w')
    (known : ∀ i, UpToDate w.journal (w.clients i)) : Serviced w w' where
  journal := settles.journal
  slot := fun i =>
    ((known i).settled (settles.slot i)).same settles.journal.outputs settles.journal.paint

theorem serviceClient_serviced (w : Worker) (i : Slot) (frame : Option Frame)
    (sound : w.journal.Sound []) (alive : w.crashed = false)
    (known : ∀ i, UpToDate w.journal (w.clients i)) : Serviced w (w.serviceClient i frame) := by
  have closed := (closeClient_settles w i).serviced known
  unfold serviceClient
  split
  · exact ⟨SameOutput.refl _, known⟩
  rename_i present
  have opened : (w.clients i).fd.isSome = true := Option.isSome_iff_ne_none.mpr present
  split
  · exact closed
  rename_i frame
  split
  · rename_i unready
    split
    · exact closed
    have begun := beginClient_begun w i frame.payload opened sound
      ((known i).unready (by simpa using unready))
    generalize w.beginClient i frame.payload = result at begun ⊢
    obtain ⟨ok, next⟩ := result
    have same : SameOutput w.journal next.journal := begun.journal ▸ SameOutput.refl _
    have others : ∀ j, j ≠ i → UpToDate next.journal (next.clients j) := by
      intro j apart
      exact ((known j).settled (begun.other j apart)).same same.outputs same.paint
    cases ok with
    | true =>
      refine ⟨same, fun j => ?_⟩
      by_cases here : j = i
      · subst here
        exact (begun.own rfl).same same.outputs same.paint
      · exact others j here
    | false =>
      dsimp only
      split
      · rename_i crashed
        refine ⟨same, fun j => ?_⟩
        by_cases here : j = i
        · subst here
          rcases begun.crashed crashed with before | empty
          · exact absurd (alive.symm.trans before) Bool.noConfusion
          · exact empty.symm ▸ upToDate_empty _
        · exact others j here
      · refine ⟨same, fun j => ?_⟩
        by_cases here : j = i
        · subst here
          rw [closeClient_same]
          exact upToDate_empty _
        · rw [closeClient_other next here]
          exact others j here
  · exact (serviceReadyClient_settles w i frame opened).serviced known

theorem add_events (history : LiveHistory) (event : LiveOutput) (allocated : Bool) :
    let next := match history.add event allocated with
      | (true, next) => next
      | (false, next) => next.discard
    next.baseSequence = history.baseSequence ∧
      (next.complete = true → history.complete = true ∧ next.events = history.events ++ [event]) := by
  by_cases whole : history.complete = true
  · by_cases large : maxLiveHistoryBytes < history.payloadBytes + event.payload.length
    · simp [LiveHistory.add, whole, large, LiveHistory.discard, LiveHistory.clearEvents]
    · cases allocated <;>
        simp [LiveHistory.add, whole, large, LiveHistory.push, LiveHistory.discard,
          LiveHistory.clearEvents]
  · simp [LiveHistory.add, whole]

theorem remember_events (history : LiveHistory) (sequence : Nat) (output : Bytes) (nowMs : Nat)
    (allocated : Bool) :
    (history.remember sequence output nowMs allocated).baseSequence = history.baseSequence ∧
      ((history.remember sequence output nowMs allocated).complete = true →
        history.complete = true ∧
        (history.remember sequence output nowMs allocated).events =
          history.events ++ [⟨sequence, output⟩]) := by
  have complete : (history.dated nowMs).complete = history.complete := by
    unfold LiveHistory.dated
    split <;> rfl
  have events : (history.dated nowMs).events = history.events := by
    unfold LiveHistory.dated
    split <;> rfl
  have base : (history.dated nowMs).baseSequence = history.baseSequence := by
    unfold LiveHistory.dated
    split <;> rfl
  have added := add_events (history.dated nowMs) ⟨sequence, output⟩ allocated
  rw [complete, events, base] at added
  exact added

theorem record_sound {rest : Bytes} (nowMs : Nat) (allocated : Bool)
    (sound : j.Sound (output ++ rest)) : (j.record output nowMs allocated).Sound rest := by
  have history := remember_events j.history (j.sequence + 1) output nowMs allocated
  have base := sound.base
  have known : j.history.baseSequence ≤ j.outputs.length := sound.counted.symm ▸ base
  constructor
  · simp only [Journal.record, List.length_append, sound.counted, List.length_cons, List.length_nil]
  · simp only [Journal.record, history.1]
    exact Nat.le_succ_of_le base
  · intro complete
    obtain ⟨before, events⟩ := history.2 complete
    simp only [Journal.record]
    rw [history.1, events, sound.events before, List.drop_append_of_le_length known, numbered_append,
      List.length_drop, sound.counted]
    rw [show j.history.baseSequence + 1 + (j.sequence - j.history.baseSequence) = j.sequence + 1 by omega]
    rfl
  · simp only [Journal.record, sound.fed, List.flatten_append, List.flatten_cons, List.flatten_nil,
      List.append_nil, List.append_assoc]

theorem recordOutput_sound {rest : Bytes}
    (sound : w.journal.Sound (output ++ rest)) : (w.recordOutput output).journal.Sound rest :=
  record_sound _ _ sound

theorem published_upToDate {j' : Journal} {before after : Client} (known : UpToDate j before)
    (counted : j.outputs.length = j.sequence) (outputs : j'.outputs = j.outputs ++ [output])
    (paint : j'.builder.paint = j.builder.paint)
    (follows : Follows (sequencedOutput (j.sequence + 1) output) before after) : UpToDate j' after := by
  rcases follows with kept | ⟨-, empty, -⟩
  · constructor
    · intro unready
      have viewer : before.viewer = false := by
        simp only [Client.viewer, ← kept.ready, unready, Bool.and_false, Bool.false_and]
      rw [kept.stream, viewer]
      simpa using known.unready (kept.ready ▸ unready)
    · intro viewer
      have viewer' : before.viewer = true := kept.viewer ▸ viewer
      obtain ⟨a, attached, bound, recovery, recovers, frames⟩ := known.served viewer'
      refine ⟨a, kept.attach.trans attached, ?_, recovery, ?_, ?_⟩
      · rw [outputs, List.length_append]
        exact Nat.le_add_right_of_le bound
      · unfold Recovers at recovers ⊢
        rwa [outputs, paint, List.take_append_of_le_length bound]
      · rw [kept.stream, if_pos viewer', frames, outputs, List.drop_append_of_le_length bound,
          numbered_append, outputFrames_append, List.length_drop, counted]
        rw [show a.sequence + 1 + (j.sequence - a.sequence) = j.sequence + 1 by omega]
        simp [numbered, outputFrames]
  · exact empty.symm ▸ upToDate_empty j'

/-- Everything read from the terminal is published or about to be. -/
structure Tracks (unpublished read : Bytes) (w : Worker) : Prop where
  sound : w.journal.Sound unpublished
  known : ∀ i, UpToDate w.journal (w.clients i)
  all : w.journal.outputs.flatten ++ unpublished = read

theorem saveCheckpoint_tracks
    (tracks : Tracks unpublished read w) : Tracks unpublished read w.saveCheckpoint := by
  have reset : ∀ stored, Tracks unpublished read { w with journal := { w.journal with
      stored := stored
      builder := w.journal.builder.didCheckpoint
      history := w.journal.history.reset w.journal.sequence } } := by
    intro stored
    refine ⟨⟨tracks.sound.counted, Nat.le_refl _, fun _ => ?_, tracks.sound.fed⟩,
      fun i => (tracks.known i).same rfl rfl, tracks.all⟩
    change [] = numbered (w.journal.sequence + 1) (w.journal.outputs.drop w.journal.sequence)
    rw [List.drop_eq_nil_of_le (Nat.le_of_eq tracks.sound.counted)]
    rfl
  simp only [saveCheckpoint]
  split
  · exact ⟨tracks.sound, tracks.known, tracks.all⟩
  split
  · exact ⟨tracks.sound, tracks.known, tracks.all⟩
  split
  · exact ⟨tracks.sound, tracks.known, tracks.all⟩
  split
  · exact ⟨tracks.sound.same ⟨rfl, rfl, rfl, rfl, rfl, rfl⟩,
      fun i => (tracks.known i).same rfl rfl, tracks.all⟩
  · have done := reset (by assumption)
    exact ⟨done.sound, done.known, done.all⟩

theorem saveCheckpoint_pending (w : Worker) : w.saveCheckpoint.journal.pending = w.journal.pending := by
  simp only [saveCheckpoint]
  split
  · rfl
  split
  · rfl
  split
  · rfl
  split <;> rfl

theorem publishOutput_tracks {rest : Bytes} (tracks : Tracks (output ++ rest) read w) :
    Tracks rest read (w.publishOutput output) ∧
      (w.publishOutput output).journal.pending = w.journal.pending := by
  have sound := recordOutput_sound tracks.sound
  have sent := broadcastOutput_carries (w.recordOutput output) (w.recordOutput output).journal.sequence
    output
  have journal := sent.journal
  simp only [publishOutput]
  generalize (w.recordOutput output).broadcastOutput (w.recordOutput output).journal.sequence output =
    v at sent journal ⊢
  have after : Tracks rest read v := by
    refine ⟨journal ▸ sound, fun i => ?_, ?_⟩
    · exact published_upToDate (tracks.known i) tracks.sound.counted (by rw [journal]; rfl)
        (by rw [journal]; rfl) (sent.slot i)
    · rw [journal]
      change (w.journal.outputs ++ [output]).flatten ++ rest = read
      rw [← tracks.all]
      simp
  have pending : v.journal.pending = w.journal.pending := by rw [journal]; rfl
  split
  · exact ⟨saveCheckpoint_tracks after, (saveCheckpoint_pending v).trans pending⟩
  · exact ⟨after, pending⟩

theorem setPending_tracks (pending : OutputBatch)
    (tracks : Tracks unpublished read w) : Tracks unpublished read (w.setPending pending) :=
  ⟨⟨tracks.sound.counted, tracks.sound.base, tracks.sound.events, tracks.sound.fed⟩,
    fun i => (tracks.known i).same rfl rfl, tracks.all⟩

theorem flushOutput_tracks {pending : Bytes}
    (bytes : w.journal.pending.bytes = pending) (tracks : Tracks pending read w) :
    Tracks [] read w.flushOutput ∧ w.flushOutput.journal.pending.bytes = [] := by
  subst bytes
  unfold flushOutput
  split
  · rename_i empty
    rw [empty] at tracks
    exact ⟨tracks, empty⟩
  · rw [← List.append_nil w.journal.pending.bytes] at tracks
    exact ⟨setPending_tracks {} (publishOutput_tracks tracks).1, rfl⟩

theorem clock_tracks (tracks : Tracks unpublished read w) :
    Tracks unpublished read w.monotonicMilliseconds.outcome.2 :=
  ⟨tracks.sound, tracks.known, tracks.all⟩

theorem feed_tracks (output : Bytes) (tracks : Tracks unpublished read w) :
    Tracks (unpublished ++ output) (read ++ output) (w.feed output) := by
  refine ⟨⟨tracks.sound.counted, tracks.sound.base, tracks.sound.events, ?_⟩,
    fun i => (tracks.known i).same rfl rfl, ?_⟩
  · change fedBytes (w.journal.builder.commands ++ [.feed output]) = _
    rw [fedBytes_append, fedBytes_feed, tracks.sound.fed, List.append_assoc]
    rfl
  · rw [← tracks.all, List.append_assoc]
    rfl

theorem append_bytes {batch batch' : OutputBatch} {nowMs : Nat} {allocated ok : Bool}
    (appended : batch.append output nowMs allocated = (ok, batch')) :
    batch'.bytes = if ok then batch.bytes ++ output else batch.bytes := by
  have dated : (if batch.bytes = [] then { batch with startedAtMs := nowMs } else batch).bytes =
      batch.bytes := by
    split <;> rfl
  simp only [OutputBatch.append] at appended
  split at appended <;> cases appended <;> simp [dated]

theorem bufferOutput_tracks (output : Bytes) (tracks : Tracks w.journal.pending.bytes read w) :
    Tracks (w.bufferOutput output).journal.pending.bytes (read ++ output) (w.bufferOutput output) := by
  have aside := clock_tracks tracks
  simp only [bufferOutput]
  split
  · rename_i pending failed
    have bytes : pending.bytes = w.journal.pending.bytes := append_bytes failed
    obtain ⟨flushed, empty⟩ := flushOutput_tracks bytes (setPending_tracks pending aside)
    have fed : Tracks (output ++ []) (read ++ output)
        ((w.monotonicMilliseconds.outcome.2.setPending pending).flushOutput.feed output) := by
      rw [List.append_nil]
      exact feed_tracks output flushed
    obtain ⟨published, same⟩ := publishOutput_tracks fed
    rw [same]
    exact (show OutputBatch.bytes _ = [] from empty).symm ▸ published
  · rename_i pending added
    have bytes : pending.bytes = w.journal.pending.bytes ++ output := append_bytes added
    have fed := feed_tracks output (setPending_tracks pending aside)
    rw [← bytes] at fed
    split
    · have held : ((w.monotonicMilliseconds.outcome.2.setPending pending).feed
          output).journal.pending.bytes = pending.bytes := rfl
      obtain ⟨flushed, empty⟩ := flushOutput_tracks held fed
      rw [empty]
      exact flushed
    · exact fed

theorem drainPty_tracks (reads : List Bytes) (tracks : Tracks w.journal.pending.bytes read w) :
    Tracks (w.drainPty reads).journal.pending.bytes
      (read ++ (reads.takeWhile (· ≠ [])).flatten) (w.drainPty reads) := by
  induction reads generalizing read w with
  | nil => simpa [drainPty] using tracks
  | cons output more ih =>
    unfold drainPty
    split
    · rename_i empty
      simpa [empty] using tracks
    · rename_i some
      have later := ih (bufferOutput_tracks output tracks)
      rw [List.append_assoc] at later
      simpa [some] using later

end Worker

namespace Loop
open Worker

theorem tracks_settles {pending : Bytes} {w' : Worker} (tracks : Tracks pending read w)
    (settles : Settles w w') : Tracks pending read w' where
  sound := tracks.sound.same settles.journal
  known := (settles.serviced tracks.known).slot
  all := by rw [settles.journal.outputs]; exact tracks.all

/-- The recovery state of the whole worker, with nothing pending where a client is served. -/
structure Exact (s : Loop) : Prop where
  tracks : Tracks s.worker.journal.pending.bytes s.read s.worker
  flushed : ∀ i, s.phase = .serving i → s.worker.journal.pending.bytes = []

theorem exact_settles {s : Loop} {v : Worker} {phase : Phase} (recorded : Bool)
    (tracks : Tracks w.journal.pending.bytes s.read w) (settles : Settles w v)
    (idle : ∀ i, phase ≠ .serving i) :
    Exact { s with worker := v, phase := phase, exitRecorded := recorded } where
  tracks := by
    rw [settles.journal.pending]
    exact tracks_settles tracks settles
  flushed := fun i here => absurd here (idle i)

theorem nextSlot_serves (i j : Slot) : nextSlot i ≠ .serving j := by
  unfold nextSlot
  split <;> exact fun impossible => Phase.noConfusion impossible

theorem acceptClient_tracks (w : Worker) (accepted : Option Accepted) (conn : Nat)
    (tracks : Tracks w.journal.pending.bytes read w) :
    Tracks (w.acceptClient accepted conn).journal.pending.bytes read (w.acceptClient accepted conn) := by
  unfold acceptClient
  split
  · exact tracks
  · rename_i connection
    split
    · exact tracks
    split
    · exact tracks
    · rename_i i _
      refine ⟨tracks.sound, fun j => ?_, tracks.all⟩
      by_cases here : j = i
      · subst here
        rw [setClient_same]
        exact ⟨fun _ => rfl, fun viewer => by simp [Client.viewer] at viewer⟩
      · rw [setClient_other _ here]
        exact tracks.known j

theorem notePoll_settles (s : Loop) (w : Worker) (i : Slot) : Settles w (s.notePoll w i) := by
  unfold notePoll
  split
  · exact noteMisuse_settles w _
  · exact Settles.refl w

theorem flushIfDue_tracks (now : Nat) (tracks : Tracks w.journal.pending.bytes read w) :
    Tracks (flushIfDue w now).journal.pending.bytes read (flushIfDue w now) := by
  unfold flushIfDue
  split
  · obtain ⟨flushed, empty⟩ := flushOutput_tracks rfl tracks
    rw [empty]
    exact flushed
  · exact tracks

theorem checkpointIfDue_tracks (now : Nat) (tracks : Tracks w.journal.pending.bytes read w) :
    Tracks (checkpointIfDue w now).journal.pending.bytes read (checkpointIfDue w now) := by
  obtain ⟨flushed, empty⟩ := flushOutput_tracks rfl tracks
  simp only [checkpointIfDue]
  split
  · split
    · rw [saveCheckpoint_pending, empty]
      exact saveCheckpoint_tracks flushed
    · rw [empty]
      exact flushed
  · exact tracks

theorem foldl_settles {turn : Worker → Slot → Worker} (each : ∀ w i, Settles w (turn w i))
    (turns : List Slot) (w : Worker) : Settles w (turns.foldl turn w) :=
  foldl_keeps (P := Settles w) (fun v i before => before.trans (each v i)) turns (Settles.refl w)

theorem broadcastExit_settles (w : Worker) (code : Nat) : Settles w (w.broadcastExit code) := by
  apply foldl_settles
  intro v i
  split
  · exact sendOrClose_settles v i _ rfl
  · exact Settles.refl v

theorem finishStep_exact {s : Loop} (code : Nat)
    (tracks : Tracks w.journal.pending.bytes s.read w) : Exact (s.finishStep w code) := by
  obtain ⟨flushed, empty⟩ := flushOutput_tracks rfl tracks
  have saved := saveCheckpoint_tracks flushed
  have nothing := (congrArg OutputBatch.bytes (saveCheckpoint_pending w.flushOutput)).trans empty
  rw [← nothing] at saved
  simp only [finishStep]
  split
  · exact ⟨saved, fun i here => Phase.noConfusion here⟩
  · have ended := (outcome_settles w.flushOutput.saveCheckpoint).trans
      ((broadcastExit_settles w.flushOutput.saveCheckpoint.outcome.2 code).trans
        (foldl_settles closeClient_settles slots _))
    exact exact_settles _ saved ended fun i here => Phase.noConfusion here

theorem phaseStep_exact {s t : Loop} {input : Input} (tracks : Tracks w.journal.pending.bytes s.read w)
    (alive : w.crashed = false) (flushed : ∀ i, s.phase = .serving i → w.journal.pending.bytes = [])
    (moved : s.phaseStep w input = some t) : Exact t := by
  have unserved : ∀ {phase : Phase} {P : Prop}, (∀ i, phase ≠ .serving i) → ∀ i,
      phase = .serving i → P := fun other i here => absurd here (other i)
  unfold phaseStep at moved
  split at moved
  · rw [← Option.some.inj moved]
    rename_i here
    unfold pollStep
    split
    · exact ⟨tracks, fun i there => by rw [here] at there; exact Phase.noConfusion there⟩
    · exact ⟨tracks, fun i there => Phase.noConfusion there⟩
  · rw [← Option.some.inj moved]
    exact exact_settles _ tracks (refreshGeometryOwner_carries w).settles
      fun i there => Phase.noConfusion there
  · simp only [acceptStep] at moved
    split at moved
    · rw [← Option.some.inj moved]
      exact ⟨tracks, fun i there => Phase.noConfusion there⟩
    split at moved
    · exact absurd moved (by simp)
    · rw [← Option.some.inj moved]
      exact ⟨acceptClient_tracks w _ _ tracks, fun i there => Phase.noConfusion there⟩
  · rw [← Option.some.inj moved]
    have later : ∀ i, (if s.polled.pty.hungUp then .drain else firstSlot) ≠ Phase.serving i := by
      intro i
      split <;> exact fun there => Phase.noConfusion there
    simp only [ptyStep]
    split
    · exact ⟨tracks, unserved later⟩
    split
    · exact ⟨tracks, fun i there => Phase.noConfusion there⟩
    · exact ⟨bufferOutput_tracks _ tracks, unserved later⟩
  · rw [← Option.some.inj moved]
    exact ⟨drainPty_tracks input.reads tracks, fun i there => Phase.noConfusion there⟩
  · rename_i i _
    rw [← Option.some.inj moved]
    unfold flushingStep
    split
    · exact ⟨tracks, unserved (nextSlot_serves i)⟩
    split
    · have noted := notePoll_settles s w i
      have flush := flushOutput_tracks (congrArg OutputBatch.bytes noted.journal.pending)
        (tracks_settles tracks noted)
      refine ⟨?_, fun _ _ => flush.2⟩
      rw [flush.2]
      exact flush.1
    · exact ⟨tracks, fun j there => Phase.noConfusion there⟩
  · rename_i i here
    rw [← Option.some.inj moved]
    have empty := flushed i here
    have serviced := serviceClient_serviced w i input.frame (empty ▸ tracks.sound) alive tracks.known
    refine ⟨⟨?_, serviced.slot, ?_⟩, fun j there => Phase.noConfusion there⟩
    · rw [serviced.journal.pending]
      exact tracks.sound.same serviced.journal
    · rw [serviced.journal.pending, serviced.journal.outputs]
      exact tracks.all
  · rename_i i _
    rw [← Option.some.inj moved]
    unfold hangupStep
    split
    · exact exact_settles _ tracks ((notePoll_settles s w i).trans (closeClient_settles _ i))
        (nextSlot_serves i)
    · exact ⟨tracks, unserved (nextSlot_serves i)⟩
  · rw [← Option.some.inj moved]
    exact exact_settles _ tracks (refreshGeometryOwner_carries w).settles
      fun i there => Phase.noConfusion there
  · rw [← Option.some.inj moved]
    have read : Tracks w.monotonicMilliseconds.journal.pending.bytes s.read w.monotonicMilliseconds :=
      ⟨tracks.sound, tracks.known, tracks.all⟩
    exact ⟨checkpointIfDue_tracks _ (flushIfDue_tracks _ read), fun i there => Phase.noConfusion there⟩
  · rw [← Option.some.inj moved]
    exact finishStep_exact input.exitCode tracks
  · exact absurd moved (by simp)

theorem step_exact (s : Loop) (input : Input) (t : Loop) (before : Exact s)
    (moved : step s input = some t) : Exact t := by
  obtain ⟨alive, moved⟩ := phaseStep_of_step moved
  exact phaseStep_exact (w := s.entered input)
    ⟨before.tracks.sound, before.tracks.known, before.tracks.all⟩ alive before.flushed moved

theorem start_exact (columns rows checkpointBytes : Nat) (positive : 0 < columns ∧ 0 < rows)
    (paint : List VtCommand → Bytes) : Exact (start columns rows checkpointBytes positive paint) where
  tracks := ⟨⟨rfl, Nat.le_refl _, fun _ => rfl, rfl⟩, fun _ => upToDate_empty _, rfl⟩
  flushed := fun _ there => Phase.noConfusion there

/-- Every byte read from the terminal is in one published output or still pending,
and the stream of every attached viewer is a recovery of the sequence it attached
at, the end of that history, and each later output once and in order. -/
theorem resume_exact (columns rows checkpointBytes : Nat) (positive : 0 < columns ∧ 0 < rows)
    (paint : List VtCommand → Bytes) (inputs : List Input) (s : Loop)
    (ran : exec (start columns rows checkpointBytes positive paint) inputs = some s) :
    s.worker.journal.outputs.length = s.worker.journal.sequence ∧
    s.worker.journal.outputs.flatten ++ s.worker.journal.pending.bytes = s.read ∧
    ∀ i, (s.worker.clients i).viewer = true → ∃ a, (s.worker.clients i).link.attach = some a ∧
      Served s.worker.journal a (stream (s.worker.clients i).link.delivered) := by
  have exact_ : Exact s := Run.exec_invariant step_exact inputs
    (start_exact columns rows checkpointBytes positive paint) ran
  exact ⟨exact_.tracks.sound.counted, exact_.tracks.all, fun i => (exact_.tracks.known i).served⟩

/-- One iteration that reads from the terminal and publishes at its end. -/
def reading (bytes : Bytes) : List Input :=
  [{ polled := some { pty := { readable := true } } }, quiet, quiet, { reads := [bytes] }] ++
    (List.replicate 14 quiet ++ [{ env := { ticks := [4] } }])

def resuming : List Input :=
  accepting { fd := 7 } ++ (reading [0x61] ++ (reading [0x62] ++
    (serving (attachFrame 0 0 0 1 9) ++ reading [0x63])))

/-- A viewer that has the first of two outputs gets the second and then the third. -/
theorem resuming_served :
    ∃ s, exec (start 80 24 0 (by decide) fun _ => []) resuming = some s ∧
      stream (s.worker.clients ⟨0, by decide⟩).link.delivered =
        [sequencedOutputFrame 2 [0x62], historyCompleteFrame 2, sequencedOutputFrame 3 [0x63]] ∧
      ∃ a, (s.worker.clients ⟨0, by decide⟩).link.attach = some a ∧
        Served s.worker.journal a (stream (s.worker.clients ⟨0, by decide⟩).link.delivered) := by
  have runs : ((exec (start 80 24 0 (by decide) fun _ => []) resuming).any fun s =>
      (s.worker.clients ⟨0, by decide⟩).viewer &&
        decide (stream (s.worker.clients ⟨0, by decide⟩).link.delivered =
          [sequencedOutputFrame 2 [0x62], historyCompleteFrame 2,
            sequencedOutputFrame 3 [0x63]])) = true := by decide +kernel
  obtain ⟨s, ran, facts⟩ := (Option.any_eq_true _ _).mp runs
  simp only [Bool.and_eq_true, decide_eq_true_eq] at facts
  exact ⟨s, ran, facts.2,
    (resume_exact 80 24 0 (by decide) (fun _ => []) resuming s ran).2.2 _ facts.1⟩

end Loop
end Machinen.Session
