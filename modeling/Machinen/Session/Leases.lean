import Machinen.Session.Delivery

/-! The leases of the worker. Its marks and records are a lease table; refreshLeases
is the table's refresh with a frame after some turns, each of which may close the slot. -/
namespace Machinen.Session

open LeaseTable

def Client.holder (client : Client) : Holder LeaseFlag Nat where
  fd := client.fd
  eligible := client.viewer
  requested := client.requested
  granted := client.granted
  beat := client.lastHeartbeatMs
  present := Client.viewer_open

namespace Worker

def table (w : Worker) : Table Slot LeaseFlag Nat where
  holders := fun i => (w.clients i).holder
  leases := w.leases

/-- The marks and the records agree. -/
def Agree (w : Worker) : Prop := Table.Inv leaseDurationMs w.table

theorem setClient_table (w : Worker) (i : Slot) (client : Client) :
    (w.setClient i client).table = w.table.put i client.holder := by
  simp only [table, Table.put, setClient, Table.mk.injEq, and_true]
  funext j
  by_cases here : j = i
  · subst here
    simp only [Function.update_self]
  · simp only [Function.update_of_ne here]

theorem closeClient_table (w : Worker) (i : Slot) : (w.closeClient i).table = w.table.close i := by
  simp only [table, Table.close, closeClient, setClient, Table.mk.injEq]
  constructor
  · funext j
    by_cases here : j = i
    · subst here
      simp only [Function.update_self]
      rfl
    · simp only [Function.update_of_ne here]
  · rfl

theorem deliver_table (w : Worker) (i : Slot) (frame : Frame) :
    (w.deliver i frame).table = w.table := by
  simp only [deliver, setClient_table, Table.put]
  simp only [table, Table.mk.injEq, and_true]
  exact Function.update_eq_self i _

theorem writeFrame_table (w : Worker) (i : Slot) (frame : Frame) :
    (w.writeFrame i frame).2.table = w.table := by
  simp only [writeFrame]
  split
  · rfl
  · split
    · rfl
    · split
      · exact deliver_table w i frame
      · rfl

theorem writeFrames_table (w : Worker) (i : Slot) (frames : List Frame) :
    (w.writeFrames i frames).2.table = w.table := by
  induction frames generalizing w with
  | nil => rfl
  | cons frame rest ih =>
    have first := writeFrame_table w i frame
    simp only [writeFrames]
    split
    · rename_i next written
      rw [written] at first
      exact (ih next).trans first
    · rename_i next written
      rwa [written] at first

theorem sendOrClose_table (w : Worker) (i : Slot) (frames : List Frame) :
    (w.sendOrClose i frames).table = w.table ∨ (w.sendOrClose i frames).table = w.table.close i := by
  have written := writeFrames_table w i frames
  simp only [sendOrClose]
  split
  · rename_i next sent
    rw [sent] at written
    exact .inl written
  · rename_i next refused
    rw [refused] at written
    right
    rw [closeClient_table]
    exact congrArg (fun t : Table Slot LeaseFlag Nat => t.close i) written

theorem setGranted_table (w : Worker) (i : Slot) (granted : LeaseFlags) :
    (w.setGranted i granted).table = w.table.put i { w.table.holders i with granted := granted } :=
  setClient_table w i _

theorem grant_table (w : Worker) (i : Slot) (flag : LeaseFlag) :
    (w.grant i flag).table = w.table.grant leaseDurationMs w.nowMs i flag := by
  have may : (w.alive i && (w.clients i).requested flag &&
      ((w.leases flag).fd = none || (w.leases flag).fd = (w.clients i).fd)) = true ↔
      Table.grantable leaseDurationMs w.nowMs w.table i flag := by
    simp only [alive, Bool.and_eq_true, Bool.or_eq_true, decide_eq_true_eq, and_assoc]
    rfl
  simp only [grant, Table.grant]
  split
  · rename_i yes
    rw [if_pos (may.mp yes)]
    have marked := setGranted_table w i (Function.update (w.clients i).granted flag true)
    simp only [table, Table.put, Table.mk.injEq] at marked
    simp only [table, setLease, Table.mk.injEq]
    exact ⟨marked.1, rfl⟩
  · rename_i no
    rw [if_neg fun yes => no (may.mpr yes)]

@[simp] theorem grant_nowMs (w : Worker) (i : Slot) (flag : LeaseFlag) :
    (w.grant i flag).nowMs = w.nowMs := by
  simp only [grant]
  split <;> rfl

theorem regrant_table (w : Worker) (i : Slot) :
    (w.regrant i).table = w.table.regrant leaseDurationMs w.nowMs [.writer, .resize] i := by
  simp only [regrant, Table.regrant, List.foldl_cons, List.foldl_nil, grant_table, grant_nowMs,
    setGranted_table]
  rfl

theorem refreshSlot_refreshed {done : Slot → Prop} (w : Worker) (i : Slot)
    (before : Table.Refreshed leaseDurationMs done w.table) :
    Table.Refreshed leaseDurationMs (fun j => done j ∨ j = i) (w.refreshSlot i).table := by
  have turn : Table.Refreshed leaseDurationMs (fun j => done j ∨ j = i)
      (w.table.regrant leaseDurationMs w.nowMs [.writer, .resize] i) := before.regrant _ i
  rw [← regrant_table] at turn
  simp only [refreshSlot]
  split
  · rcases sendOrClose_table (w.regrant i) i
      [leaseFrame ((w.regrant i).clients i).granted ((w.regrant i).clients i).requested]
      with same | closed
    · rwa [same]
    · rw [closed]
      exact turn.close i
  · exact turn

/-- After a refresh, the marks and the records agree whatever they were before. -/
theorem refreshLeases_agree (w : Worker) (base : Table.Base w.table) : w.refreshLeases.Agree := by
  have loop : ∀ (turns : List Slot) (done : Slot → Prop) (v : Worker),
      Table.Refreshed leaseDurationMs done v.table →
      Table.Refreshed leaseDurationMs (fun j => done j ∨ j ∈ turns) (turns.foldl refreshSlot v).table := by
    intro turns
    induction turns with
    | nil =>
      intro done v refreshed
      exact ⟨refreshed.toBase, fun j turn => refreshed.sound j (by simpa using turn)⟩
    | cons i rest ih =>
      intro done v refreshed
      have later := ih _ _ (refreshSlot_refreshed v i refreshed)
      refine ⟨later.toBase, fun j turn => later.sound j ?_⟩
      rw [List.mem_cons] at turn
      tauto
  have expired : Table.Base w.monotonicMilliseconds.expireLeases.table :=
    Table.expire_base (t := w.monotonicMilliseconds.table) base _
  have all := loop slots (fun _ => False) _ expired.refreshed
  exact all.inv fun i => .inr (mem_slots i)

theorem foldl_keeps {P : Worker → Prop} {turn : Worker → Slot → Worker}
    (each : ∀ w i, P w → P (turn w i)) (turns : List Slot) {w : Worker} (start : P w) :
    P (turns.foldl turn w) := by
  induction turns generalizing w with
  | nil => exact start
  | cons i rest ih => exact ih (each w i start)

theorem closeClient_agree (w : Worker) (i : Slot) (agree : w.Agree) : (w.closeClient i).Agree := by
  unfold Agree
  rw [closeClient_table]
  exact agree.close i

theorem sendOrClose_agree (w : Worker) (i : Slot) (frames : List Frame) (agree : w.Agree) :
    (w.sendOrClose i frames).Agree := by
  unfold Agree
  rcases sendOrClose_table w i frames with same | closed
  · rwa [same]
  · rw [closed]
    exact agree.close i

theorem broadcastGeometry_agree (w : Worker) (agree : w.Agree) : w.broadcastGeometry.Agree := by
  apply foldl_keeps (P := Agree) _ slots agree
  intro v i before
  unfold broadcastGeometrySlot
  split
  · exact sendOrClose_agree v i _ before
  · exact before

theorem broadcastOutput_agree (w : Worker) (sequence : Nat) (payload : Bytes) (agree : w.Agree) :
    (w.broadcastOutput sequence payload).Agree := by
  apply foldl_keeps (P := Agree) _ slots agree
  intro v i before
  split
  · exact sendOrClose_agree v i _ before
  · exact before

theorem setBroadcastOwner_table (w : Worker) (owner : Option Nat) :
    (w.setBroadcastOwner owner).table = w.table := rfl

theorem refreshGeometryOwner_agree (w : Worker) (agree : w.Agree) :
    w.refreshGeometryOwner.Agree := by
  have refreshed := refreshLeases_agree w agree.toBase
  simp only [refreshGeometryOwner]
  split
  · exact refreshed
  · apply broadcastGeometry_agree
    unfold Agree
    rwa [setBroadcastOwner_table]

theorem saveCheckpoint_table (w : Worker) : w.saveCheckpoint.table = w.table := by
  simp only [saveCheckpoint]
  split
  · rfl
  split
  · rfl
  split
  · rfl
  split <;> rfl

theorem publishOutput_agree (w : Worker) (output : Bytes) (agree : w.Agree) :
    (w.publishOutput output).Agree := by
  have sent := broadcastOutput_agree (w.recordOutput output) (w.recordOutput output).journal.sequence
    output agree
  simp only [publishOutput]
  split
  · unfold Agree
    rw [saveCheckpoint_table]
    exact sent
  · exact sent

theorem flushOutput_agree (w : Worker) (agree : w.Agree) : w.flushOutput.Agree := by
  unfold flushOutput
  split
  · exact agree
  · exact publishOutput_agree w _ agree

theorem feed_agree (w : Worker) (output : Bytes) (agree : w.Agree) : (w.feed output).Agree := agree

theorem bufferOutput_agree (w : Worker) (output : Bytes) (agree : w.Agree) :
    (w.bufferOutput output).Agree := by
  simp only [bufferOutput]
  split
  · rename_i pending _
    exact publishOutput_agree _ output (feed_agree _ output
      (flushOutput_agree (w.monotonicMilliseconds.outcome.2.setPending pending) agree))
  · rename_i pending _
    split
    · exact flushOutput_agree ((w.monotonicMilliseconds.outcome.2.setPending pending).feed output) agree
    · exact agree

theorem drainPty_agree (reads : List Bytes) (w : Worker) (agree : w.Agree) :
    (w.drainPty reads).Agree := by
  induction reads generalizing w with
  | nil => exact agree
  | cons output more ih =>
    unfold drainPty
    split
    · exact agree
    · exact ih _ (bufferOutput_agree w output agree)

/-- A change of one slot that leaves its descriptor and its role. -/
theorem setClient_base (w : Worker) (i : Slot) (client : Client) (base : Table.Base w.table)
    (fd : client.fd = (w.clients i).fd) (viewer : (w.clients i).viewer = true → client.viewer = true) :
    Table.Base (w.setClient i client).table := by
  have own : ((w.setClient i client).table.holders i) = client.holder := by
    simp only [table, setClient_same]
  have other : ∀ j, j ≠ i → (w.setClient i client).table.holders j = w.table.holders j := by
    intro j apart
    simp only [table, setClient_other w apart]
  apply base.frame
  · intro j
    by_cases here : j = i
    · subst here
      rw [own]
      exact fd
    · rw [other j here]
  · intro j eligible
    by_cases here : j = i
    · subst here
      rw [own]
      exact viewer eligible
    · rwa [other j here]
  · exact base.held

theorem heartbeat_base (w : Worker) (i : Slot) (base : Table.Base w.table) :
    Table.Base (w.heartbeat i).table := by
  unfold heartbeat
  exact setClient_base w.monotonicMilliseconds i _ base rfl fun viewer => viewer

theorem beat_agree (w : Worker) (i : Slot) (agree : w.Agree) :
    (w.heartbeat i).refreshLeases.Agree :=
  refreshLeases_agree _ (heartbeat_base w i agree.toBase)

theorem writePty_table (w : Worker) (payload : Bytes) : (w.writePty payload).2.table = w.table := by
  unfold writePty
  split <;> rfl

theorem serviceInput_agree (w : Worker) (i : Slot) (payload : Bytes) (agree : w.Agree) :
    (w.serviceInput i payload).Agree := by
  have turn := beat_agree w i agree
  have written := writePty_table (w.heartbeat i).refreshLeases payload
  simp only [serviceInput]
  split
  · exact turn
  · split
    · rename_i next done
      rw [done] at written
      unfold Agree
      rwa [written]
    · rename_i next failed
      rw [failed] at written
      apply closeClient_agree
      unfold Agree
      rwa [written]

theorem resizeGeometry_table (w : Worker) (columns rows : Nat) (positive : 0 < columns ∧ 0 < rows) :
    (w.resizeGeometry columns rows positive).table = w.table := by
  unfold resizeGeometry
  split <;> rfl

theorem applyWindow_agree (w : Worker) (i : Slot) (columns rows : Nat)
    (positive : 0 < columns ∧ 0 < rows) (agree : w.Agree) :
    (w.applyWindow i columns rows positive).Agree := by
  simp only [applyWindow]
  split
  · exact closeClient_agree (w.note _).outcome.2 i agree
  · rename_i builder _
    apply broadcastGeometry_agree
    unfold Agree
    rw [resizeGeometry_table]
    exact agree

theorem serviceClientResize_agree (w : Worker) (i : Slot) (payload : Bytes) (agree : w.Agree) :
    (w.serviceClientResize i payload).Agree := by
  have turn := beat_agree w i agree
  simp only [serviceClientResize]
  split
  · exact turn
  split
  · exact closeClient_agree _ i turn
  split
  · split
    · exact closeClient_agree _ i turn
    · exact applyWindow_agree _ i _ _ _ turn
  · exact closeClient_agree _ i turn

theorem serviceSignal_agree (w : Worker) (i : Slot) (payload : Bytes) (agree : w.Agree) :
    (w.serviceSignal i payload).Agree := by
  simp only [serviceSignal]
  split
  · exact sendOrClose_agree w i _ agree
  split
  · exact closeClient_agree w i agree
  split
  · exact closeClient_agree w i agree
  split
  · rename_i next delivered
    have same : next = (w.note (.signal (Bytes.ofBe payload))).outcome.2 := by rw [delivered]
    rw [same]
    exact agree
  · rename_i next refused
    have same : next = (w.note (.signal (Bytes.ofBe payload))).outcome.2 := by rw [refused]
    rw [same]
    exact closeClient_agree _ i agree

theorem setClient_agree (w : Worker) (i : Slot) (client : Client) (agree : w.Agree)
    (same : client.holder = (w.clients i).holder) : (w.setClient i client).Agree := by
  unfold Agree
  rw [setClient_table, same]
  have unchanged : w.table.put i (w.clients i).holder = w.table := by
    simp only [Table.put, table, Table.mk.injEq, and_true]
    exact Function.update_eq_self i _
  rwa [unchanged]

theorem applyClientInfo_agree (w : Worker) (i : Slot) (payload : Bytes) (agree : w.Agree) :
    (w.applyClientInfo i payload).2.Agree := by
  simp only [applyClientInfo]
  split
  · exact agree
  split
  · exact agree
  split
  · exact agree
  split
  · exact agree
  · exact setClient_agree w i _ agree rfl

theorem sendAttachedClients_agree (w : Worker) (i : Slot) (agree : w.Agree) :
    (w.sendAttachedClients i).Agree := by
  unfold sendAttachedClients
  split
  · exact closeClient_agree w i agree
  · exact sendOrClose_agree w i _ agree

theorem assignLeases_base (w : Worker) (target : Slot) (viewer : (w.clients target).viewer = true)
    (base : Table.Base w.table) : Table.Base (w.assignLeases target).table := by
  have beating := heartbeat_base w target base
  apply beating.frame
  · exact fun _ => rfl
  · exact fun _ eligible => eligible
  · intro flag fd named
    refine ⟨target, named, ?_⟩
    simp only [table, heartbeat, setClient_same]
    exact viewer

theorem transferTarget_viewer {w : Worker} {targetId : Nat} {target : Slot}
    (found : w.transferTarget targetId = some target) : (w.clients target).viewer = true := by
  have wanted := List.find?_some found
  simp only [Bool.and_eq_true] at wanted
  exact wanted.1.1.1

theorem transferControl_agree (w : Worker) (targetId : Nat) (agree : w.Agree) :
    (w.transferControl targetId).2.Agree := by
  simp only [transferControl]
  split
  · exact agree
  split
  · exact agree
  · rename_i target found
    have assigned := assignLeases_base w target (transferTarget_viewer found) agree.toBase
    dsimp only
    exact refreshLeases_agree (w.assignLeases target) assigned

theorem serviceTakeControl_agree (w : Worker) (i : Slot) (payload : Bytes) (agree : w.Agree) :
    (w.serviceTakeControl i payload).Agree := by
  have moved := transferControl_agree w (Bytes.ofBe payload) agree
  simp only [serviceTakeControl]
  split
  · rename_i next refused
    rw [refused] at moved
    exact sendOrClose_agree next i _ moved
  · rename_i next done
    rw [done] at moved
    exact broadcastGeometry_agree _ (sendOrClose_agree next i _ moved)

theorem serviceSessionControlFrame_agree (w : Worker) (i : Slot) (frame : Frame) (agree : w.Agree) :
    (w.serviceSessionControlFrame i frame).Agree := by
  have named := applyClientInfo_agree w i frame.payload agree
  simp only [serviceSessionControlFrame]
  split <;> try split
  · exact closeClient_agree w i agree
  · exact sendOrClose_agree w i _ agree
  · exact closeClient_agree _ i named
  · exact named
  · exact closeClient_agree w i agree
  · exact sendAttachedClients_agree w i agree
  · exact closeClient_agree w i agree
  · exact serviceTakeControl_agree w i _ agree
  · exact closeClient_agree w i agree
  · exact sendOrClose_agree w i _ agree
  · exact agree

theorem serviceReadyClient_agree (w : Worker) (i : Slot) (frame : Frame) (agree : w.Agree) :
    (w.serviceReadyClient i frame).Agree := by
  unfold serviceReadyClient
  split
  · exact beat_agree w i agree
  · exact serviceInput_agree w i _ agree
  · exact serviceClientResize_agree w i _ agree
  · exact serviceSignal_agree w i _ agree
  · split
    · exact closeClient_agree w i agree
    · exact sendOrClose_agree w i _ agree
  iterate 5 exact serviceSessionControlFrame_agree w i frame agree
  exact closeClient_agree w i agree

theorem sendHistoryComplete_table (w : Worker) (i : Slot) :
    (w.sendHistoryComplete i).2.table = w.table := by
  unfold sendHistoryComplete
  split
  · rfl
  · exact writeFrame_table w i _

theorem sendRecovery_table (w : Worker) (i : Slot) (frames : List Frame) :
    (w.sendRecovery i frames).2.table = w.table := by
  have written := writeFrames_table w i frames
  unfold sendRecovery
  split
  · rename_i next refused
    rwa [refused] at written
  · rename_i next sent
    rw [sent] at written
    exact (sendHistoryComplete_table next i).trans written

theorem replayClient_table (w : Worker) (i : Slot) (requestedAfter : Nat) (recovery : RecoveryMode) :
    (w.replayClient i requestedAfter recovery).2.table = w.table := by
  unfold replayClient
  split
  · split
    · rename_i next failed
      have same : next = w.outcome.2 := by rw [failed]
      rw [same]
      rfl
    · rename_i next allocated
      have same : next = w.outcome.2 := by rw [allocated]
      rw [sendRecovery_table, same]
      rfl
  · exact sendRecovery_table w i _

theorem welcome_table (w : Worker) (i : Slot) (request : AttachRequest) :
    (w.welcome i request).2.table = w.table := by
  have shown := writeFrame_table w i w.geometryFrame
  simp only [welcome]
  split
  · exact sendHistoryComplete_table w i
  split
  · split
    · rename_i next refused
      rwa [refused] at shown
    · rename_i next sent
      rw [sent] at shown
      exact (replayClient_table next i _ _).trans shown
  · exact replayClient_table w i _ _

theorem enrol_base (w : Worker) (i : Slot) (request : AttachRequest) (base : Table.Base w.table)
    (unready : (w.clients i).ready = false) : Table.Base (w.enrol i request).table := by
  apply setClient_base w.monotonicMilliseconds i
    (admitted (w.clients i) request w.monotonicMilliseconds.nowMs w.journal) base rfl
  intro viewer
  have ready : (w.clients i).viewer = true := viewer
  simp [Client.viewer, unready] at ready

theorem beginClient_agree (w : Worker) (i : Slot) (payload : Bytes) (agree : w.Agree)
    (unready : (w.clients i).ready = false) : (w.beginClient i payload).2.Agree := by
  unfold beginClient
  split
  · exact agree
  · rename_i request _
    split
    · exact agree
    · unfold Agree
      rw [welcome_table]
      exact refreshLeases_agree _ (enrol_base w i request agree.toBase unready)

theorem serviceClient_agree (w : Worker) (i : Slot) (frame : Option Frame) (agree : w.Agree) :
    (w.serviceClient i frame).Agree := by
  unfold serviceClient
  split
  · exact agree
  split
  · exact closeClient_agree w i agree
  · rename_i frame
    split
    · rename_i unready
      split
      · exact closeClient_agree w i agree
      · have begun := beginClient_agree w i frame.payload agree (by simpa using unready)
        split
        · rename_i next done
          rwa [done] at begun
        · rename_i next refused
          rw [refused] at begun
          split
          · exact begun
          · exact closeClient_agree next i begun
    · exact serviceReadyClient_agree w i frame agree

theorem acceptClient_agree (w : Worker) (accepted : Option Accepted) (conn : Nat) (agree : w.Agree)
    (fresh : ∀ connection, accepted = some connection → ∀ i, (w.clients i).fd ≠ some connection.fd) :
    (w.acceptClient accepted conn).Agree := by
  unfold acceptClient
  split
  · exact agree
  · rename_i connection
    split
    · exact agree
    split
    · exact agree
    · rename_i i found
      have free : (w.clients i).fd = none := by
        simpa using List.find?_some found
      unfold Agree
      rw [setClient_table]
      apply Table.Inv.enter (t := w.monotonicMilliseconds.table) agree i _ free
      · exact fun _ => rfl
      · intro j fd own taken
        have same : connection.fd = fd := Option.some.inj own
        exact fresh connection rfl j (same ▸ taken)

end Worker

namespace Loop
open Worker

theorem notePoll_table (s : Loop) (w : Worker) (i : Slot) : (s.notePoll w i).table = w.table := by
  unfold notePoll
  split <;> rfl

theorem saveCheckpoint_agree (w : Worker) (agree : w.Agree) : w.saveCheckpoint.Agree := by
  unfold Agree
  rwa [saveCheckpoint_table]

theorem dueStep_agree (s : Loop) (w : Worker) (agree : w.Agree) : (s.dueStep w).worker.Agree := by
  have first : (flushIfDue w.monotonicMilliseconds w.monotonicMilliseconds.nowMs).Agree := by
    unfold flushIfDue
    split
    · exact flushOutput_agree _ agree
    · exact agree
  simp only [dueStep, checkpointIfDue]
  split
  · split
    · exact saveCheckpoint_agree _ (flushOutput_agree _ first)
    · exact flushOutput_agree _ first
  · exact first

theorem broadcastExit_agree (w : Worker) (code : Nat) (agree : w.Agree) :
    (w.broadcastExit code).Agree := by
  apply foldl_keeps (P := Agree) _ slots agree
  intro v i before
  split
  · exact sendOrClose_agree v i _ before
  · exact before

theorem finishStep_agree (s : Loop) (w : Worker) (code : Nat) (agree : w.Agree) :
    (s.finishStep w code).worker.Agree := by
  have saved := saveCheckpoint_agree _ (flushOutput_agree w agree)
  simp only [finishStep]
  split
  · exact saved
  · apply foldl_keeps (P := Agree) (fun v i before => closeClient_agree v i before)
    exact broadcastExit_agree w.flushOutput.saveCheckpoint.outcome.2 code saved

theorem acceptStep_agree {s t : Loop} {w : Worker} {input : Input} (agree : w.Agree)
    (moved : s.acceptStep w input = some t) : t.worker.Agree := by
  simp only [acceptStep] at moved
  split at moved
  · exact Option.some.inj moved ▸ agree
  split at moved
  · exact absurd moved (by simp)
  · rename_i known
    cases moved
    apply acceptClient_agree w input.accepted s.nextConn agree
    intro connection given i
    have all : (slots.all fun i => (w.clients i).fd ≠ some connection.fd) = true := by
      simpa [fresh, given] using known
    simpa using List.all_eq_true.mp all i (mem_slots i)

theorem phaseStep_agree {s t : Loop} {w : Worker} {input : Input} (agree : w.Agree)
    (moved : s.phaseStep w input = some t) : t.worker.Agree := by
  unfold phaseStep at moved
  split at moved
  · rw [← Option.some.inj moved]
    unfold pollStep
    split <;> exact agree
  · rw [← Option.some.inj moved]
    dsimp only
    exact refreshGeometryOwner_agree w agree
  · exact acceptStep_agree agree moved
  · rw [← Option.some.inj moved]
    simp only [ptyStep]
    split
    · exact agree
    split
    · exact agree
    · exact bufferOutput_agree w _ agree
  · rw [← Option.some.inj moved]
    exact drainPty_agree input.reads w agree
  · rename_i i _
    rw [← Option.some.inj moved]
    unfold flushingStep
    split
    · exact agree
    split
    · apply flushOutput_agree
      unfold Agree
      rwa [notePoll_table]
    · exact agree
  · rw [← Option.some.inj moved]
    exact serviceClient_agree w _ _ agree
  · rename_i i _
    rw [← Option.some.inj moved]
    unfold hangupStep
    split
    · apply closeClient_agree
      unfold Agree
      rwa [notePoll_table]
    · exact agree
  · rw [← Option.some.inj moved]
    dsimp only
    exact refreshGeometryOwner_agree w agree
  · rw [← Option.some.inj moved]
    exact dueStep_agree s w agree
  · rw [← Option.some.inj moved]
    exact finishStep_agree s w _ agree
  · exact absurd moved (by simp)

/-- One step of the event loop keeps the marks and the records in agreement. -/
theorem step_agree (s : Loop) (input : Input) (t : Loop) (agree : s.worker.Agree)
    (moved : step s input = some t) : t.worker.Agree :=
  phaseStep_agree (w := s.entered input) agree (phaseStep_of_step moved).2

theorem start_agree (columns rows checkpointBytes : Nat) (positive : 0 < columns ∧ 0 < rows)
    (paint : List VtCommand → Bytes) : (start columns rows checkpointBytes positive
      paint).worker.Agree := by
  refine ⟨⟨?_, ?_⟩, ?_⟩
  · intro i j fd own
    exact absurd own (by simp [start, table, Client.holder])
  · intro flag fd named
    exact absurd named (by simp [start, table])
  · intro i flag marked
    exact absurd marked (by simp [start, table, Client.holder])

theorem run_agree (inputs : List Input) {s t : Loop} (agree : s.worker.Agree)
    (ran : exec s inputs = some t) : t.worker.Agree := by
  have kept : (fun s : Loop => s.worker.Agree) t :=
    Run.exec_invariant (fun s input t => step_agree s input t) inputs agree ran
  exact kept

/-- The frame that a lease lets a viewer send to the terminal. -/
def ptyFrame : LeaseFlag → FrameType
  | .writer => .input
  | .resize => .resize

/-- The worker in which an input or a resize frame of slot `i` is judged. -/
def judged (s : Loop) (input : Input) (i : Slot) : Worker :=
  ((s.entered input).heartbeat i).refreshLeases

theorem judged_effects (s : Loop) (input : Input) (i : Slot) :
    (s.judged input i).effects = s.worker.effects := by
  unfold judged
  rw [(refreshLeases_carries ((s.entered input).heartbeat i)).effects]
  rfl

theorem heartbeat_client (w : Worker) (i : Slot) :
    ((w.heartbeat i).clients i).fd = (w.clients i).fd ∧
      ((w.heartbeat i).clients i).control = (w.clients i).control := by
  simp only [heartbeat, setClient_same]
  exact ⟨rfl, rfl⟩

theorem judged_viewer {s : Loop} (input : Input) {i : Slot}
    (viewer : (s.worker.clients i).control = false) :
    ((s.judged input i).clients i).control = false := by
  have before := heartbeat_client (s.entered input) i
  unfold judged
  rcases (refreshLeases_carries ((s.entered input).heartbeat i)).slot i with kept | ⟨-, empty, -⟩
  · rw [kept.control, before.2]
    exact viewer
  · rw [empty]

/-- A frame of a viewer without the lease leaves the terminal alone. -/
theorem unleased_frame (s : Loop) (input : Input) (i : Slot) (frame : Frame) (flag : LeaseFlag)
    (viewer : (s.worker.clients i).control = false) (kind : frame.kind = ptyFrame flag)
    (unleased : ((s.judged input i).clients i).granted flag = false) :
    ((s.entered input).serviceClient i (some frame)).effects = s.worker.effects := by
  have control := judged_viewer input viewer
  have same := judged_effects s input i
  unfold judged at unleased control same
  unfold serviceClient
  split
  · rfl
  dsimp only
  split
  · rw [if_pos (by rw [kind]; cases flag <;> decide)]
    rfl
  · cases flag with
    | writer =>
      simp only [serviceReadyClient, kind, ptyFrame, serviceInput]
      rw [if_pos (by simp [control, unleased])]
      exact same
    | resize =>
      simp only [serviceReadyClient, kind, ptyFrame, serviceClientResize]
      rw [if_pos (by simp [control, unleased])]
      exact same

/-- What a mark means: the record names the client's own descriptor, which no
other slot has, and the client is an attached viewer. -/
def Holds (w : Worker) (i : Slot) (flag : LeaseFlag) : Prop :=
  (w.leases flag).fd = (w.clients i).fd ∧
    (∃ fd, (w.clients i).fd = some fd ∧ ∀ j, (w.clients j).fd = some fd → j = i) ∧
    (w.clients i).ready = true ∧ (w.clients i).control = false

theorem granted_holds {w : Worker} (agree : w.Agree) {i : Slot} {flag : LeaseFlag}
    (marked : (w.clients i).granted flag = true) : Holds w i flag := by
  obtain ⟨eligible, named, -, -⟩ := agree.sound i flag marked
  have viewer : (w.clients i).viewer = true := eligible
  simp only [Client.viewer, Bool.and_eq_true, Bool.not_eq_true'] at viewer
  obtain ⟨fd, own⟩ := Option.isSome_iff_exists.mp viewer.1.1
  exact ⟨named, ⟨fd, own, fun j other => agree.distinct j i fd other own⟩, viewer.1.2, viewer.2⟩

theorem leases_exclusive (columns rows checkpointBytes : Nat) (positive : 0 < columns ∧ 0 < rows)
    (paint : List VtCommand → Bytes) (inputs : List Input) (s : Loop)
    (ran : exec (start columns rows checkpointBytes positive paint) inputs = some s) :
    (∀ flag i j, (s.worker.clients i).granted flag = true →
      (s.worker.clients j).granted flag = true → i = j) ∧
    (∀ flag i, (s.worker.clients i).granted flag = true → Holds s.worker i flag) ∧
    (∀ (input : Input) (t : Loop) (i : Slot) (frame : Frame) (flag : LeaseFlag),
      s.phase = .serving i → input.frame = some frame → frame.kind = ptyFrame flag →
      (s.worker.clients i).control = false → step s input = some t →
      t.worker.effects ≠ s.worker.effects →
      ((s.judged input i).clients i).granted flag = true ∧ Holds (s.judged input i) i flag) := by
  have agree : s.worker.Agree := run_agree inputs
    (start_agree columns rows checkpointBytes positive paint) ran
  refine ⟨fun flag i j => agree.exclusive flag, fun flag i => granted_holds agree, ?_⟩
  intro input t i frame flag here given kind viewer moved changed
  have granted : ((s.judged input i).clients i).granted flag = true := by
    by_contra no
    apply changed
    obtain ⟨-, moved⟩ := phaseStep_of_step moved
    simp only [phaseStep, here] at moved
    rw [← Option.some.inj moved, given]
    exact unleased_frame s input i frame flag viewer kind (Bool.eq_false_iff.mpr no)
  have turn : (s.judged input i).Agree := by
    unfold judged
    exact beat_agree (s.entered input) i agree
  exact ⟨granted, granted_holds turn granted⟩

def typing : List Input :=
  accepting { fd := 7 } ++ (serving (attachFrame 1 0 0 0 9) ++ serving ⟨.input, [0x61]⟩)

/-- A viewer that attached for writing holds the lease, and its input is written. -/
theorem typing_holds_writer :
    ∃ s, exec (start 80 24 0 (by decide) fun _ => []) typing = some s ∧
      s.worker.effects = [.input [0x61]] ∧ Holds s.worker ⟨0, by decide⟩ .writer := by
  have runs : ((exec (start 80 24 0 (by decide) fun _ => []) typing).any fun s =>
      decide (s.worker.effects = [.input [0x61]]) &&
        (s.worker.clients ⟨0, by decide⟩).granted .writer) = true := by decide +kernel
  obtain ⟨s, ran, facts⟩ := (Option.any_eq_true _ _).mp runs
  simp only [Bool.and_eq_true, decide_eq_true_eq] at facts
  exact ⟨s, ran, facts.1,
    (leases_exclusive 80 24 0 (by decide) (fun _ => []) typing s ran).2.1 .writer _ facts.2⟩

end Loop
end Machinen.Session
