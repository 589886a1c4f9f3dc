import Machinen.Session.Leases
import Machinen.Session.ClientList
import Mathlib.Data.List.Perm.Subperm

/-! Who is attached. Only an attach and a name frame put anything into a slot that the list of
clients shows; every other handler leaves the clients as they are or loses some of them. -/
namespace Machinen.Session

/-- No new viewer, and the same name or none. -/
structure Client.Fades (before after : Client) : Prop where
  viewer : after.viewer = true → before.viewer = true
  known : after.clientId = before.clientId ∧ after.clientName = before.clientName ∨
    after.clientId = 0 ∧ after.clientName = []

namespace Client

theorem Fades.refl (client : Client) : Fades client client := ⟨id, .inl ⟨rfl, rfl⟩⟩

theorem Fades.trans {a b c : Client} (first : Fades a b) (second : Fades b c) : Fades a c := by
  refine ⟨first.viewer ∘ second.viewer, ?_⟩
  rcases second.known with ⟨id, name⟩ | empty
  · rw [id, name]
    exact first.known
  · exact .inr empty

theorem fades_empty (client : Client) : Fades client {} := ⟨nofun, .inr ⟨rfl, rfl⟩⟩

theorem Named.empty : Named {} := ⟨Nat.zero_le _, Nat.zero_le _, by decide⟩

theorem Named.fades {before after : Client} (named : Named before) (fades : Fades before after) :
    Named after := by
  rcases fades.known with ⟨id, name⟩ | ⟨id, name⟩
  · exact ⟨id ▸ named.id, name ▸ named.short, name ▸ named.text⟩
  · exact ⟨id ▸ Named.empty.id, name ▸ Named.empty.short, name ▸ Named.empty.text⟩

end Client

variable {w : Worker}

namespace Worker
open Client

/-- Every slot fades. -/
def Thins (w w' : Worker) : Prop := ∀ i, Fades (w.clients i) (w'.clients i)

theorem Thins.refl (w : Worker) : Thins w w := fun i => Fades.refl (w.clients i)

theorem Thins.trans {a b c : Worker} (first : Thins a b) (second : Thins b c) : Thins a c :=
  fun i => (first i).trans (second i)

theorem still_thins {v : Worker} (clients : v.clients = w.clients) : Thins w v :=
  fun i => clients ▸ Fades.refl (w.clients i)

theorem outcome_thins (w : Worker) : Thins w w.outcome.2 := still_thins rfl

theorem setClient_thins (w : Worker) (i : Slot) {client : Client} (fades : Fades (w.clients i) client) :
    Thins w (w.setClient i client) := by
  intro j
  by_cases here : j = i
  · subst here
    rw [setClient_same]
    exact fades
  · rw [setClient_other w here]
    exact Fades.refl (w.clients j)

theorem closeClient_thins (w : Worker) (i : Slot) : Thins w (w.closeClient i) :=
  (setClient_thins w i (fades_empty _)).trans (still_thins rfl)

theorem foldl_thins {turn : Worker → Slot → Worker} (each : ∀ w i, Thins w (turn w i)) (turns : List Slot)
    (w : Worker) : Thins w (turns.foldl turn w) :=
  foldl_keeps (P := Thins w) (fun v i before => before.trans (each v i)) turns (Thins.refl w)

theorem writeFrame_thins (w : Worker) (i : Slot) (frame : Frame) : Thins w (w.writeFrame i frame).2 := by
  simp only [writeFrame]
  split
  · exact Thins.refl w
  split
  · exact still_thins rfl
  split
  · exact setClient_thins w i ⟨id, .inl ⟨rfl, rfl⟩⟩
  · exact Thins.refl w

theorem writeFrames_thins (w : Worker) (i : Slot) (frames : List Frame) :
    Thins w (w.writeFrames i frames).2 := by
  induction frames generalizing w with
  | nil => exact Thins.refl w
  | cons frame rest ih =>
    have first := writeFrame_thins w i frame
    simp only [writeFrames]
    split
    · rename_i next sent
      rw [sent] at first
      exact first.trans (ih next)
    · rename_i next refused
      rw [refused] at first
      exact first

theorem sendOrClose_thins (w : Worker) (i : Slot) (frames : List Frame) :
    Thins w (w.sendOrClose i frames) := by
  have sent := writeFrames_thins w i frames
  unfold sendOrClose
  split
  · rename_i next done
    rw [done] at sent
    exact sent
  · rename_i next refused
    rw [refused] at sent
    exact sent.trans (closeClient_thins next i)

theorem grant_thins (w : Worker) (i : Slot) (flag : LeaseFlag) : Thins w (w.grant i flag) := by
  simp only [grant]
  split
  · have granted : Thins w (w.setGranted i (Function.update (w.clients i).granted flag true)) :=
      setClient_thins w i ⟨id, .inl ⟨rfl, rfl⟩⟩
    exact granted.trans (still_thins rfl)
  · exact Thins.refl w

theorem regrant_thins (w : Worker) (i : Slot) : Thins w (w.regrant i) := by
  have cleared : Thins w (w.setGranted i fun _ => false) := setClient_thins w i ⟨id, .inl ⟨rfl, rfl⟩⟩
  exact (cleared.trans (grant_thins _ i .writer)).trans (grant_thins _ i .resize)

theorem refreshSlot_thins (w : Worker) (i : Slot) : Thins w (w.refreshSlot i) := by
  simp only [refreshSlot]
  split
  · exact (regrant_thins w i).trans (sendOrClose_thins _ i _)
  · exact regrant_thins w i

theorem refreshLeases_thins (w : Worker) : Thins w w.refreshLeases := by
  have expired : Thins w w.monotonicMilliseconds.expireLeases := still_thins rfl
  exact expired.trans (foldl_thins refreshSlot_thins slots _)

theorem broadcastGeometry_thins (w : Worker) : Thins w w.broadcastGeometry := by
  apply foldl_thins
  intro v i
  unfold broadcastGeometrySlot
  split
  · exact sendOrClose_thins v i _
  · exact Thins.refl v

theorem setBroadcastOwner_thins (w : Worker) (owner : Option Nat) : Thins w (w.setBroadcastOwner owner) :=
  still_thins rfl

theorem refreshGeometryOwner_thins (w : Worker) : Thins w w.refreshGeometryOwner := by
  have refreshed := refreshLeases_thins w
  simp only [refreshGeometryOwner]
  split
  · exact refreshed
  · exact (refreshed.trans (setBroadcastOwner_thins _ _)).trans (broadcastGeometry_thins _)

theorem broadcastOutput_thins (w : Worker) (sequence : Nat) (payload : Bytes) :
    Thins w (w.broadcastOutput sequence payload) := by
  apply foldl_thins
  intro v i
  split
  · exact sendOrClose_thins v i _
  · exact Thins.refl v

theorem saveCheckpoint_clients (w : Worker) : w.saveCheckpoint.clients = w.clients := by
  simp only [saveCheckpoint]
  split
  · rfl
  split
  · rfl
  split
  · rfl
  split <;> rfl

theorem publishOutput_thins (w : Worker) (output : Bytes) : Thins w (w.publishOutput output) := by
  have recorded : Thins w (w.recordOutput output) := still_thins rfl
  have sent := recorded.trans (broadcastOutput_thins _ (w.recordOutput output).journal.sequence output)
  simp only [publishOutput]
  split
  · exact sent.trans (still_thins (saveCheckpoint_clients _))
  · exact sent

theorem flushOutput_thins (w : Worker) : Thins w w.flushOutput := by
  unfold flushOutput
  split
  · exact Thins.refl w
  · have published := publishOutput_thins w w.journal.pending.bytes
    exact published

theorem bufferOutput_thins (w : Worker) (output : Bytes) : Thins w (w.bufferOutput output) := by
  simp only [bufferOutput]
  split
  · rename_i pending _
    have set : Thins w (w.monotonicMilliseconds.outcome.2.setPending pending) := still_thins rfl
    have fed : Thins w ((w.monotonicMilliseconds.outcome.2.setPending pending).flushOutput.feed output) :=
      set.trans (flushOutput_thins _)
    exact fed.trans (publishOutput_thins _ output)
  · rename_i pending _
    have fed : Thins w ((w.monotonicMilliseconds.outcome.2.setPending pending).feed output) :=
      still_thins rfl
    split
    · exact fed.trans (flushOutput_thins _)
    · exact fed

theorem drainPty_thins (reads : List Bytes) (w : Worker) : Thins w (w.drainPty reads) := by
  induction reads generalizing w with
  | nil => exact Thins.refl w
  | cons output more ih =>
    unfold drainPty
    split
    · exact Thins.refl w
    · exact (bufferOutput_thins w output).trans (ih _)

theorem heartbeat_thins (w : Worker) (i : Slot) : Thins w (w.heartbeat i) := by
  have timed : Thins w w.monotonicMilliseconds := still_thins rfl
  exact timed.trans (setClient_thins _ i ⟨id, .inl ⟨rfl, rfl⟩⟩)

theorem beat_thins (w : Worker) (i : Slot) : Thins w (w.heartbeat i).refreshLeases :=
  (heartbeat_thins w i).trans (refreshLeases_thins _)

theorem writePty_clients (w : Worker) (payload : Bytes) : (w.writePty payload).2.clients = w.clients := by
  unfold writePty
  split <;> rfl

theorem serviceInput_thins (w : Worker) (i : Slot) (payload : Bytes) :
    Thins w (w.serviceInput i payload) := by
  have turn := beat_thins w i
  have written := writePty_clients (w.heartbeat i).refreshLeases payload
  simp only [serviceInput]
  split
  · exact turn
  split
  · rename_i next done
    rw [done] at written
    exact turn.trans (still_thins written)
  · rename_i next failed
    rw [failed] at written
    exact (turn.trans (still_thins written)).trans (closeClient_thins next i)

theorem resizeGeometry_clients (w : Worker) (columns rows : Nat) (positive : 0 < columns ∧ 0 < rows) :
    (w.resizeGeometry columns rows positive).clients = w.clients := by
  unfold resizeGeometry
  split <;> rfl

theorem applyWindow_thins (w : Worker) (i : Slot) (columns rows : Nat) (positive : 0 < columns ∧ 0 < rows) :
    Thins w (w.applyWindow i columns rows positive) := by
  simp only [applyWindow]
  split
  · have noted : Thins w (w.note (.window columns rows)).outcome.2 := still_thins rfl
    exact noted.trans (closeClient_thins _ i)
  · rename_i builder _
    have shaped : Thins w
        (((w.note (.window columns rows)).outcome.2.setBuilder builder).resizeGeometry columns rows
          positive) :=
      still_thins (resizeGeometry_clients _ columns rows positive)
    exact shaped.trans (broadcastGeometry_thins _)

theorem serviceClientResize_thins (w : Worker) (i : Slot) (payload : Bytes) :
    Thins w (w.serviceClientResize i payload) := by
  have turn := beat_thins w i
  have closed := turn.trans (closeClient_thins (w.heartbeat i).refreshLeases i)
  simp only [serviceClientResize]
  split
  · exact turn
  split
  · exact closed
  split
  · split
    · exact closed
    · exact turn.trans (applyWindow_thins _ i _ _ _)
  · exact closed

theorem serviceSignal_thins (w : Worker) (i : Slot) (payload : Bytes) :
    Thins w (w.serviceSignal i payload) := by
  have noted : Thins w (w.note (.signal (Bytes.ofBe payload))).outcome.2 := still_thins rfl
  simp only [serviceSignal]
  split
  · exact sendOrClose_thins w i _
  split
  · exact closeClient_thins w i
  split
  · exact closeClient_thins w i
  split
  · rename_i next delivered
    rwa [delivered] at noted
  · rename_i next refused
    rw [refused] at noted
    exact noted.trans (closeClient_thins next i)

theorem sendAttachedClients_thins (w : Worker) (i : Slot) : Thins w (w.sendAttachedClients i) := by
  unfold sendAttachedClients
  split
  · exact closeClient_thins w i
  · exact sendOrClose_thins w i _

theorem assignLeases_thins (w : Worker) (target : Slot) : Thins w (w.assignLeases target) := by
  have beating := heartbeat_thins w target
  unfold assignLeases
  generalize w.heartbeat target = v at beating ⊢
  exact beating.trans (still_thins rfl)

theorem transferControl_thins (w : Worker) (targetId : Nat) : Thins w (w.transferControl targetId).2 := by
  simp only [transferControl]
  split
  · exact Thins.refl w
  split
  · exact Thins.refl w
  · rename_i target _
    dsimp only
    exact (assignLeases_thins w target).trans (refreshLeases_thins _)

theorem serviceTakeControl_thins (w : Worker) (i : Slot) (payload : Bytes) :
    Thins w (w.serviceTakeControl i payload) := by
  have moved := transferControl_thins w (Bytes.ofBe payload)
  simp only [serviceTakeControl]
  split
  · rename_i next refused
    rw [refused] at moved
    exact moved.trans (sendOrClose_thins next i _)
  · rename_i next done
    rw [done] at moved
    exact (moved.trans (sendOrClose_thins next i _)).trans (broadcastGeometry_thins _)

theorem sendHistoryComplete_thins (w : Worker) (i : Slot) : Thins w (w.sendHistoryComplete i).2 := by
  unfold sendHistoryComplete
  split
  · exact still_thins rfl
  · exact writeFrame_thins w i _

theorem sendRecovery_thins (w : Worker) (i : Slot) (frames : List Frame) :
    Thins w (w.sendRecovery i frames).2 := by
  have sent := writeFrames_thins w i frames
  unfold sendRecovery
  split
  · rename_i next refused
    rw [refused] at sent
    exact sent
  · rename_i next done
    rw [done] at sent
    exact sent.trans (sendHistoryComplete_thins next i)

theorem replayClient_thins (w : Worker) (i : Slot) (requestedAfter : Nat) (recovery : RecoveryMode) :
    Thins w (w.replayClient i requestedAfter recovery).2 := by
  have allocated : Thins w w.outcome.2 := still_thins rfl
  unfold replayClient
  split
  · split
    · rename_i next failed
      rw [failed] at allocated
      exact allocated
    · rename_i next done
      rw [done] at allocated
      exact allocated.trans (sendRecovery_thins next i _)
  · exact sendRecovery_thins w i _

theorem welcome_thins (w : Worker) (i : Slot) (request : AttachRequest) :
    Thins w (w.welcome i request).2 := by
  have shaped := writeFrame_thins w i w.geometryFrame
  simp only [welcome]
  split
  · exact sendHistoryComplete_thins w i
  split
  · split
    · rename_i next refused
      rw [refused] at shaped
      exact shaped
    · rename_i next sent
      rw [sent] at shaped
      exact shaped.trans (replayClient_thins next i _ _)
  · exact replayClient_thins w i _ _

theorem broadcastExit_thins (w : Worker) (code : Nat) : Thins w (w.broadcastExit code) := by
  apply foldl_thins
  intro v i
  split
  · exact sendOrClose_thins v i _
  · exact Thins.refl v

/-! The table of clients: every name was accepted, and the viewers fit into one list -/

structure Roster (w : Worker) : Prop where
  named : ∀ i, (w.clients i).Named
  few : w.viewerCount ≤ maxViewerClients

theorem Thins.viewerCount {w' : Worker} (thins : Thins w w') : w'.viewerCount ≤ w.viewerCount := by
  unfold Worker.viewerCount
  refine (List.Subperm.length_le (List.Nodup.subperm (slots_nodup.filter _) fun i found => ?_))
  obtain ⟨listed, viewer⟩ := List.mem_filter.mp found
  exact List.mem_filter.mpr ⟨listed, (thins i).viewer viewer⟩

theorem Roster.thins {w' : Worker} (roster : Roster w) (thins : Thins w w') : Roster w' :=
  ⟨fun i => (roster.named i).fades (thins i), Nat.le_trans thins.viewerCount roster.few⟩

theorem setClient_viewerCount (w : Worker) (i : Slot) (client : Client) :
    (w.setClient i client).viewerCount ≤ w.viewerCount + 1 := by
  unfold Worker.viewerCount
  change _ ≤ (i :: slots.filter fun j => (w.clients j).viewer).length
  refine (List.Subperm.length_le (List.Nodup.subperm (slots_nodup.filter _) fun j found => ?_))
  obtain ⟨listed, viewer⟩ := List.mem_filter.mp found
  by_cases here : j = i
  · exact here ▸ List.mem_cons_self
  · rw [setClient_other w here] at viewer
    exact List.mem_cons_of_mem i (List.mem_filter.mpr ⟨listed, viewer⟩)

theorem Roster.put (roster : Roster w) (i : Slot) {client : Client} (named : client.Named)
    (room : client.viewer = true → (w.clients i).viewer = true ∨ w.viewerCount < maxViewerClients) :
    Roster (w.setClient i client) where
  named := by
    intro j
    by_cases here : j = i
    · subst here
      rw [setClient_same]
      exact named
    · rw [setClient_other w here]
      exact roster.named j
  few := by
    by_cases space : w.viewerCount < maxViewerClients
    · exact Nat.le_trans (setClient_viewerCount w i client) space
    · refine Nat.le_trans ?_ roster.few
      unfold Worker.viewerCount
      refine (List.Subperm.length_le (List.Nodup.subperm (slots_nodup.filter _) fun j found => ?_))
      obtain ⟨listed, viewer⟩ := List.mem_filter.mp found
      refine List.mem_filter.mpr ⟨listed, ?_⟩
      by_cases here : j = i
      · subst here
        rw [setClient_same] at viewer
        exact (room viewer).resolve_right space
      · rwa [setClient_other w here] at viewer

/-- The attached clients that are no control connections, in the order of their slots. -/
def viewers (w : Worker) : List Client := (slots.filter fun i => (w.clients i).viewer).map w.clients

theorem Roster.viewers (roster : Roster w) :
    (∀ client ∈ w.viewers, client.Named) ∧ w.viewers.length ≤ maxViewerClients := by
  constructor
  · intro client listed
    obtain ⟨i, -, rfl⟩ := List.mem_map.mp listed
    exact roster.named i
  · rw [Worker.viewers, List.length_map]
    exact roster.few

/-- No item is left out where there is room for items with the longest names. -/
theorem attachedClients_eq (named : ∀ i, (w.clients i).Named) (turns : List Slot)
    (payload : Bytes)
    (fits : payload.length + 1 + 150 * (turns.filter fun i => (w.clients i).viewer).length ≤
      maxFramePayload) :
    w.attachedClients turns payload =
      some (payload ++ ((turns.filter fun i => (w.clients i).viewer).map w.clients).flatMap
        attachedClient) := by
  induction turns generalizing payload with
  | nil => rw [attachedClients, List.filter_nil, List.map_nil, List.flatMap_nil, List.append_nil]
  | cons i rest ih =>
    simp only [attachedClients]
    split
    · rename_i other
      rw [List.filter_cons_of_neg (by simpa using other)] at fits ⊢
      exact ih payload fits
    · rename_i viewer
      have short := (named i).short
      have length := attachedClient_length (w.clients i)
      rw [List.filter_cons_of_pos (by simpa using viewer)] at fits ⊢
      rw [List.length_cons] at fits
      unfold clientNameCapacity at short
      unfold clientListItemHeaderLength at length
      rw [if_neg (by unfold clientListHeaderLength clientListItemHeaderLength; omega),
        ih _ (by rw [List.length_append]; omega), List.map_cons, List.flatMap_cons, List.append_assoc]

theorem sendAttachedClients_eq (roster : Roster w) (i : Slot) :
    w.sendAttachedClients i = w.sendOrClose i [⟨.clients, clientsPayload w.viewers⟩] := by
  have few := roster.few
  unfold maxViewerClients maxAttachedClients Worker.viewerCount at few
  have items := attachedClients_eq roster.named slots []
    (by unfold maxFramePayload; rw [List.length_nil]; omega)
  unfold sendAttachedClients
  rw [items, clientsPayload, Worker.viewers, List.length_map, List.nil_append]
  rfl

theorem applyClientInfo_roster (roster : Roster w) (i : Slot) (payload : Bytes) :
    Roster (w.applyClientInfo i payload).2 := by
  simp only [applyClientInfo]
  split
  · exact roster
  split
  · exact roster
  rename_i lengths
  split
  · exact roster
  rename_i text
  split
  · exact roster
  · refine roster.put i ⟨(roster.named i).id, ?_, by simpa using text⟩ .inl
    change (payload.drop clientInfoHeaderLength).length ≤ _
    rw [List.length_drop]
    omega

theorem serviceSessionControlFrame_roster (roster : Roster w) (i : Slot) (frame : Frame) :
    Roster (w.serviceSessionControlFrame i frame) := by
  have closed := roster.thins (closeClient_thins w i)
  have named := applyClientInfo_roster roster i frame.payload
  simp only [serviceSessionControlFrame]
  split <;> try split
  · exact closed
  · exact roster.thins (sendOrClose_thins w i _)
  · exact named.thins (closeClient_thins _ i)
  · exact named
  · exact closed
  · exact roster.thins (sendAttachedClients_thins w i)
  · exact closed
  · exact roster.thins (serviceTakeControl_thins w i _)
  · exact closed
  · exact roster.thins (sendOrClose_thins w i _)
  · exact roster

theorem serviceReadyClient_roster (roster : Roster w) (i : Slot) (frame : Frame) :
    Roster (w.serviceReadyClient i frame) := by
  unfold serviceReadyClient
  split
  · exact roster.thins (beat_thins w i)
  · exact roster.thins (serviceInput_thins w i _)
  · exact roster.thins (serviceClientResize_thins w i _)
  · exact roster.thins (serviceSignal_thins w i _)
  · split
    · exact roster.thins (closeClient_thins w i)
    · exact roster.thins (sendOrClose_thins w i _)
  iterate 5 exact serviceSessionControlFrame_roster roster i frame
  exact roster.thins (closeClient_thins w i)

theorem attachRequest_id {payload : Bytes} {request : AttachRequest}
    (accepted : attachRequest payload = some request) : request.clientId ≤ maxClientId := by
  simp only [attachRequest] at accepted
  split at accepted
  · exact nomatch accepted
  split at accepted
  · exact nomatch accepted
  split at accepted
  · exact nomatch accepted
  split at accepted
  · exact nomatch accepted
  split at accepted
  · exact nomatch accepted
  rename_i id
  split at accepted
  · exact nomatch accepted
  · rw [← Option.some.inj accepted]
    exact Nat.le_of_not_lt (not_or.mp id).2

/-- An attach is let in where the list has room for one more. -/
theorem beginClient_roster (roster : Roster w) (i : Slot) (payload : Bytes) :
    Roster (w.beginClient i payload).2 := by
  unfold beginClient
  split
  · exact roster
  rename_i request accepted
  split
  · exact roster
  rename_i room
  have enrolled : Roster (w.enrol i request) := by
    have timed : Roster w.monotonicMilliseconds := roster.thins (still_thins rfl)
    refine timed.put i ⟨attachRequest_id accepted, (roster.named i).short,
      (roster.named i).text⟩ fun viewer => .inr ?_
    have control : request.control = false := by
      simp only [Client.viewer, admitted, Bool.and_eq_true, Bool.not_eq_true'] at viewer
      exact viewer.2
    simp only [control, Bool.not_false, Bool.true_and, decide_eq_true_eq, Nat.not_le] at room
    exact room
  exact (enrolled.thins (refreshLeases_thins _)).thins (welcome_thins _ i request)

theorem serviceClient_roster (roster : Roster w) (i : Slot) (frame : Option Frame) :
    Roster (w.serviceClient i frame) := by
  have closed := roster.thins (closeClient_thins w i)
  unfold serviceClient
  split
  · exact roster.thins (still_thins rfl)
  split
  · exact closed
  rename_i frame
  split
  · split
    · exact closed
    have begun := beginClient_roster roster i frame.payload
    split
    · rename_i next done
      rwa [done] at begun
    · rename_i next refused
      rw [refused] at begun
      split
      · exact begun
      · exact begun.thins (closeClient_thins next i)
  · exact serviceReadyClient_roster roster i frame

theorem acceptClient_roster (roster : Roster w) (accepted : Option Accepted) (conn : Nat) :
    Roster (w.acceptClient accepted conn) := by
  unfold acceptClient
  split
  · exact roster
  split
  · exact roster
  split
  · exact roster
  · rename_i i _
    have timed : Roster w.monotonicMilliseconds := roster.thins (still_thins rfl)
    exact timed.put i ⟨Named.empty.id, Named.empty.short, Named.empty.text⟩ fun viewer => by
      simp [Client.viewer] at viewer

end Worker

namespace Loop
open Worker

theorem notePoll_thins (s : Loop) (w : Worker) (i : Slot) : Thins w (s.notePoll w i) := by
  unfold notePoll
  split <;> exact still_thins rfl

theorem flushIfDue_thins (w : Worker) (now : Nat) : Thins w (flushIfDue w now) := by
  unfold flushIfDue
  split
  · exact flushOutput_thins w
  · exact Thins.refl w

theorem checkpointIfDue_thins (w : Worker) (now : Nat) : Thins w (checkpointIfDue w now) := by
  have flushed := flushOutput_thins w
  simp only [checkpointIfDue]
  split
  · split
    · exact flushed.trans (still_thins (saveCheckpoint_clients _))
    · exact flushed
  · exact Thins.refl w

theorem finishStep_thins (s : Loop) (w : Worker) (code : Nat) : Thins w (s.finishStep w code).worker := by
  have saved := (flushOutput_thins w).trans (still_thins (saveCheckpoint_clients _))
  simp only [finishStep]
  split
  · exact saved
  · have recorded := saved.trans (outcome_thins _)
    exact (recorded.trans (broadcastExit_thins _ code)).trans (foldl_thins closeClient_thins slots _)

theorem phaseStep_roster {s t : Loop} {input : Input} (roster : Roster w)
    (moved : s.phaseStep w input = some t) : Roster t.worker := by
  unfold phaseStep at moved
  split at moved
  · rw [← Option.some.inj moved]
    unfold pollStep
    split <;> exact roster
  · rw [← Option.some.inj moved]
    dsimp only
    exact roster.thins (refreshGeometryOwner_thins w)
  · simp only [acceptStep] at moved
    split at moved
    · rw [← Option.some.inj moved]
      exact roster
    split at moved
    · cases moved
    · rw [← Option.some.inj moved]
      exact acceptClient_roster roster _ _
  · rw [← Option.some.inj moved]
    simp only [ptyStep]
    split
    · exact roster
    split
    · exact roster
    · exact roster.thins (bufferOutput_thins w _)
  · rw [← Option.some.inj moved]
    exact roster.thins (drainPty_thins input.reads w)
  · rename_i i _
    rw [← Option.some.inj moved]
    unfold flushingStep
    split
    · exact roster
    split
    · exact roster.thins ((notePoll_thins s w i).trans (flushOutput_thins _))
    · exact roster
  · rw [← Option.some.inj moved]
    exact serviceClient_roster roster _ _
  · rename_i i _
    rw [← Option.some.inj moved]
    unfold hangupStep
    split
    · exact roster.thins ((notePoll_thins s w i).trans (closeClient_thins _ i))
    · exact roster
  · rw [← Option.some.inj moved]
    dsimp only
    exact roster.thins (refreshGeometryOwner_thins w)
  · rw [← Option.some.inj moved]
    have timed : Thins w w.monotonicMilliseconds := still_thins rfl
    exact roster.thins (timed.trans ((flushIfDue_thins _ _).trans (checkpointIfDue_thins _ _)))
  · rw [← Option.some.inj moved]
    exact roster.thins (finishStep_thins s w _)
  · cases moved

theorem step_roster (s : Loop) (input : Input) (t : Loop) (roster : Roster s.worker)
    (moved : step s input = some t) : Roster t.worker :=
  phaseStep_roster (w := s.entered input) (roster.thins (still_thins rfl)) (phaseStep_of_step moved).2

theorem start_roster (columns rows checkpointBytes : Nat) (positive : 0 < columns ∧ 0 < rows)
    (paint : List VtCommand → Bytes) : Roster
      (start columns rows checkpointBytes positive paint).worker where
  named := fun _ => Client.Named.empty
  few := by
    change (slots.filter fun _ => false).length ≤ maxViewerClients
    decide

/-- The list of clients that a worker sends is read as its viewers, and no other payload leads the
reader outside of it or past its lengths. -/
theorem client_list_codec :
    (∀ (columns rows checkpointBytes : Nat) (positive : 0 < columns ∧ 0 < rows)
      (paint : List VtCommand → Bytes) (inputs : List Input) (s : Loop),
      exec (start columns rows checkpointBytes positive paint) inputs = some s →
      ∀ i, ∃ payload items, s.worker.sendAttachedClients i = s.worker.sendOrClose i [⟨.clients, payload⟩] ∧
        payload.length ≤ maxFramePayload ∧ decodeAttachedClients payload = some (some items) ∧
        List.Forall₂ Shows s.worker.viewers items) ∧
    ∀ payload : Bytes, payload.length ≤ maxFramePayload → decodeAttachedClients payload ≠ none ∧
      (listEnd payload (payload.getD 0 0).toNat clientListHeaderLength ≠ payload.length →
        decodeAttachedClients payload = some none) := by
  refine ⟨fun columns rows checkpointBytes positive paint inputs s ran i => ?_,
    fun payload => decodeAttachedClients_total⟩
  have roster : (fun s : Loop => Roster s.worker) s := Run.exec_invariant step_roster inputs
    (start_roster columns rows checkpointBytes positive paint) ran
  obtain ⟨named, few⟩ := roster.viewers
  obtain ⟨items, decoded, all⟩ := decode_clientsPayload named few
  have short := clientsPayload_short named
  unfold maxViewerClients maxAttachedClients at few
  exact ⟨_, items, sendAttachedClients_eq roster i, by unfold maxFramePayload; omega, decoded, all⟩

/-- An iteration in which the client of the second slot is served. -/
def servingSecond (frame : Frame) : List Input :=
  { polled := some { clients := fun i => { readable := decide (i.val = 1) } } } ::
    (List.replicate 6 quiet ++ { frame := some frame } :: List.replicate 13 quiet)

/-- A viewer with both leases that gives its name, and a second one that never does. -/
def visiting : List Input :=
  accepting { fd := 7, connectedAtMs := 5 } ++ serving (attachFrame 3 0 0 0 9) ++
    serving ⟨.clientInfo, Bytes.be 4 4321 ++ [3, 0, 0, 0, 0x61, 0x6E, 0x61]⟩ ++
    accepting { fd := 8, connectedAtMs := 6 } ++ quiet :: servingSecond (attachFrame 0 0 0 0 10)

theorem client_list_codec_visiting : ∃ s, exec (start 80 24 0 (by decide) fun _ => []) visiting = some s ∧
    s.worker.viewers.map (fun client => (client.clientId, client.clientName)) =
      [(9, [0x61, 0x6E, 0x61]), (10, [])] ∧
    ∀ i, ∃ payload items, s.worker.sendAttachedClients i = s.worker.sendOrClose i [⟨.clients, payload⟩] ∧
      payload.length ≤ maxFramePayload ∧ decodeAttachedClients payload = some (some items) ∧
      List.Forall₂ Shows s.worker.viewers items := by
  have runs : ((exec (start 80 24 0 (by decide) fun _ => []) visiting).any fun s =>
      decide (s.worker.viewers.map (fun client => (client.clientId, client.clientName)) =
        [(9, [0x61, 0x6E, 0x61]), (10, [])])) = true := by decide +kernel
  obtain ⟨s, ran, two⟩ := (Option.any_eq_true _ _).mp runs
  exact ⟨s, ran, of_decide_eq_true two, client_list_codec.1 80 24 0 (by decide) (fun _ => []) visiting s
    ran⟩

end Loop
end Machinen.Session
