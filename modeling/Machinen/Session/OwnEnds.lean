import Machinen.Session.Presence
import Machinen.Session.Turnover

/-! How a served client ends itself: by a frame that is malformed or not its to send, or by one
whose effect on the terminal, the child or the screen fails. Nothing else that is done for a
client closes a connection that takes every write. -/
namespace Machinen.Session.Worker

/-- A frame of an attached client that ends it. -/
def RequestEnds (w : Worker) (i : Slot) (frame : Frame) : Prop :=
  let client := w.clients i
  let payload := frame.payload
  match frame.kind with
  | .heartbeat => False
  | .input => ((w.heartbeat i).refreshLeases.writePty payload).1 = false
  | .resize =>
    let columns := Bytes.ofBe (payload.take 2)
    let rows := Bytes.ofBe (payload.drop 2)
    payload.length ≠ 4 ∨ ¬ (0 < columns ∧ 0 < rows) ∨ maxDimension < columns ∨ maxDimension < rows ∨
      w.journal.builder.resize rows columns
        ((w.heartbeat i).refreshLeases.note (.window columns rows)).outcome.1 = none
  | .signal =>
    payload.length ≠ 4 ∨ Bytes.ofBe payload = 0 ∨ 2 ^ 31 ≤ Bytes.ofBe payload ∨ w.outcome.1 = false
  | .telemetry => payload ≠ [] ∨ maxFramePayload < w.env.telemetry.length
  | .capabilities | .geometry => client.control = false ∨ payload ≠ []
  | .clients => client.control = false ∨ payload ≠ [] ∨ (∀ items, w.attachedClients slots [] = some items →
      maxFramePayload < items.length + 1)
  | .takeControl => client.control = false ∨ payload.length ≠ 8
  | .clientInfo => client.control = true ∨ (w.applyClientInfo i payload).1 = false
  | _ => True

/-- A first frame that is no request to attach, or one that is refused. -/
def AttachEnds (w : Worker) (i : Slot) (frame : Frame) : Prop :=
  frame.kind ≠ .attachRequest ∨ attachRequest frame.payload = none ∨
    ∃ request, attachRequest frame.payload = some request ∧ request.control = false ∧
      (maxViewerClients ≤ w.viewerCount ∨ (w.enrol i request).refreshLeases.outcome.1 = false)

/-- What readFrame returns ends the client: nothing, when the read fails, or such a frame. -/
def ServiceEnds (w : Worker) (i : Slot) : Option Frame → Prop
  | none => True
  | some frame => if (w.clients i).ready then w.RequestEnds i frame else w.AttachEnds i frame

/-- An open slot whose connection takes every write. -/
def Well (w : Worker) (i : Slot) : Prop := (w.clients i).fd.isSome = true ∧ (w.clients i).healthy

variable {w w' : Worker} {i : Slot}

theorem Well.follows {frames : List Frame} (well : Well w i)
    (follows : Follows frames (w.clients i) (w'.clients i)) : Well w' i := by
  have kept := follows.healthy well.2
  refine ⟨by rw [kept.fd]; exact well.1, fun n => ?_⟩
  rw [kept.accepts]
  exact well.2 n

theorem Well.same (well : Well w i) (clients : w'.clients i = w.clients i) : Well w' i := by
  unfold Well
  rw [clients]
  exact well

theorem Well.setClient (well : Well w i) {client : Client} (fd : client.fd = (w.clients i).fd)
    (accepts : client.link.accepts = (w.clients i).link.accepts) : Well (w.setClient i client) i := by
  unfold Well Client.healthy
  rw [setClient_same, fd, accepts]
  exact well

theorem Well.delivered (well : Well w i) (frames : List Frame) : Well (w.deliverAll i frames) i :=
  well.setClient rfl rfl

theorem Well.written (well : Well w i) {frames : List Frame}
    (fits : ∀ frame ∈ frames, frame.payload.length ≤ maxFramePayload) :
    w.writeFrames i frames = (true, w.deliverAll i frames) := by
  rcases writeFrames_eq w i frames well.1 fits with ⟨-, written⟩ | ⟨refused, -⟩
  · exact written
  · exact absurd (fun k _ => well.2 _) refused

theorem Well.sent (well : Well w i) {frame : Frame} (fits : frame.payload.length ≤ maxFramePayload) :
    Well (w.sendOrClose i [frame]) i := by
  unfold sendOrClose
  rw [well.written (by simpa using fits)]
  exact well.delivered [frame]

theorem Well.beat (well : Well w i) : Well (w.heartbeat i).refreshLeases i := by
  have beating : Well (w.heartbeat i) i :=
    Well.setClient (w := w.monotonicMilliseconds) (well.same rfl) rfl rfl
  exact beating.follows ((refreshLeases_carries (w.heartbeat i)).slot i)

theorem Well.shown (well : Well w i) : Well w.broadcastGeometry i :=
  well.follows ((broadcastGeometry_carries w).slot i)

theorem Well.input (well : Well w i) {payload : Bytes}
    (taken : ((w.heartbeat i).refreshLeases.writePty payload).1 = true) :
    Well (w.serviceInput i payload) i := by
  have beat := well.beat
  unfold serviceInput
  dsimp only
  split
  · exact beat
  · split
    · rename_i next done
      have clients := writePty_clients (w.heartbeat i).refreshLeases payload
      rw [done] at clients
      exact beat.same (congrFun clients i)
    · rename_i next refused
      rw [refused] at taken
      cases taken

theorem Well.window (well : Well w i) {columns rows : Nat} (positive : 0 < columns ∧ 0 < rows)
    (fits : w.journal.builder.resize rows columns (w.note (.window columns rows)).outcome.1 ≠ none) :
    Well (w.applyWindow i columns rows positive) i := by
  unfold applyWindow
  dsimp only
  split
  · rename_i failed
    exact absurd failed fits
  · rename_i builder _
    exact Well.shown (well.same (congrFun (resizeGeometry_clients _ columns rows positive) i))

theorem Well.resized (well : Well w i) {frame : Frame} (kind : frame.kind = .resize)
    (stays : ¬ w.RequestEnds i frame) : Well (w.serviceClientResize i frame.payload) i := by
  have beat := well.beat
  simp only [RequestEnds, kind, not_or, Decidable.not_not] at stays
  obtain ⟨length, positive, columns, rows, fits⟩ := stays
  unfold serviceClientResize
  dsimp only
  split
  · exact beat
  · rw [if_neg (not_not_intro length), if_neg (not_or.mpr ⟨columns, rows⟩)]
    have journal := (refreshLeases_carries (w.heartbeat i)).journal
    exact beat.window positive (by rw [journal]; exact fits)

theorem Well.signalled (well : Well w i) {frame : Frame} (kind : frame.kind = .signal)
    (stays : ¬ w.RequestEnds i frame) : Well (w.serviceSignal i frame.payload) i := by
  simp only [RequestEnds, kind, not_or, Decidable.not_not] at stays
  obtain ⟨length, some_, small, delivered⟩ := stays
  unfold serviceSignal
  dsimp only
  split
  · exact well.sent (by decide +kernel)
  · rw [if_neg (not_not_intro length), if_neg (not_or.mpr ⟨some_, small⟩)]
    split
    · rename_i next done
      rw [show next = (w.note (.signal (Bytes.ofBe frame.payload))).outcome.2 by rw [done]]
      exact well.same rfl
    · rename_i next refused
      have failed : w.outcome.1 = false := congrArg Prod.fst refused
      exact absurd failed delivered

theorem Well.named (well : Well w i) (payload : Bytes) : Well (w.applyClientInfo i payload).2 i := by
  unfold applyClientInfo
  split
  · exact well
  · dsimp only
    repeat' split
    all_goals first
      | exact well
      | exact well.setClient rfl rfl

theorem Well.transferred (well : Well w i) (targetId : Nat) : Well (w.transferControl targetId).2 i := by
  unfold transferControl
  split
  · exact well
  · split
    · exact well
    · rename_i target _
      have beating : Well (w.heartbeat target) i := by
        by_cases here : i = target
        · subst here
          exact Well.setClient (w := w.monotonicMilliseconds) (well.same rfl) rfl rfl
        · exact well.same (setClient_other w.monotonicMilliseconds here _)
      have assigned : Well (w.assignLeases target) i := by
        unfold assignLeases
        generalize w.heartbeat target = v at beating ⊢
        exact beating.same rfl
      dsimp only
      generalize w.assignLeases target = v at assigned ⊢
      exact assigned.follows ((refreshLeases_carries v).slot i)

theorem Well.controlled (well : Well w i) {frame : Frame} (length : frame.payload.length = 8) :
    Well (w.serviceTakeControl i frame.payload) i := by
  have transferred := well.transferred (Bytes.ofBe frame.payload)
  unfold serviceTakeControl
  split
  · rename_i next refused
    rw [refused] at transferred
    exact transferred.sent (by decide +kernel)
  · rename_i next done
    rw [done] at transferred
    exact (transferred.sent (by rw [length]; decide)).shown

theorem Well.served (well : Well w i) {frame : Frame} (stays : ¬ w.RequestEnds i frame) :
    Well (w.serviceReadyClient i frame) i := by
  have asked := stays
  unfold RequestEnds at asked
  unfold serviceReadyClient serviceSessionControlFrame
  cases kind : frame.kind <;> simp only [kind, not_or, Decidable.not_not, Bool.not_eq_false,
    Bool.not_eq_true] at asked ⊢
  case heartbeat => exact well.beat
  case input => exact well.input asked
  case resize => exact well.resized kind stays
  case signal => exact well.signalled kind stays
  case telemetry =>
    rw [if_neg (not_not_intro asked.1)]
    exact well.sent (Nat.le_of_not_lt asked.2)
  case capabilities =>
    rw [asked.1, asked.2]
    exact well.sent (by decide)
  case geometry =>
    rw [asked.1, asked.2]
    exact well.sent (geometryFrame_fits w)
  case clients =>
    rw [asked.1, asked.2.1]
    simp only [not_forall, Nat.not_lt] at asked
    obtain ⟨items, listed, fits⟩ := asked.2.2
    simp only [sendAttachedClients, listed]
    exact well.sent fits
  case takeControl =>
    rw [asked.1, asked.2]
    exact well.controlled asked.2
  case clientInfo =>
    rw [asked.1, asked.2]
    exact well.named frame.payload
  all_goals exact absurd trivial asked

theorem Well.recovered (well : Well w i) {frames : List Frame}
    (fits : ∀ frame ∈ frames, frame.payload.length ≤ maxFramePayload) :
    (w.sendRecovery i frames).1 = true ∧ Well (w.sendRecovery i frames).2 i := by
  unfold sendRecovery
  rw [well.written fits]
  dsimp only
  have next := well.delivered frames
  have present : ((w.deliverAll i frames).clients i).fd ≠ none := Option.isSome_iff_ne_none.mp next.1
  unfold sendHistoryComplete
  rw [if_neg present]
  unfold writeFrame
  dsimp only
  rw [if_neg (Nat.not_lt.mpr (historyCompleteFrame_fits _)), if_neg present, if_pos (next.2 _)]
  exact ⟨rfl, next.setClient rfl rfl⟩

theorem Well.replayed (well : Well w i) (allocated : w.outcome.1 = true) (requestedAfter : Nat)
    (recovery : RecoveryMode) : (w.replayClient i requestedAfter recovery).1 = true ∧
      Well (w.replayClient i requestedAfter recovery).2 i := by
  unfold replayClient
  split
  · split
    · rename_i next failed
      rw [failed] at allocated
      cases allocated
    · rename_i next done
      have same : Well next i := by
        rw [show next = w.outcome.2 by rw [done]]
        exact well.same rfl
      exact same.recovered fun frame => checkpointFrames_fits
  · refine well.recovered fun frame listed => ?_
    obtain ⟨event, -, sent⟩ := List.mem_flatMap.mp listed
    exact sequencedOutput_fits sent

theorem Well.welcomed (well : Well w i) {request : AttachRequest} (role : (w.clients i).control = request.control)
    (allocated : request.control = false → w.outcome.1 = true) :
    (w.welcome i request).1 = true ∧ Well (w.welcome i request).2 i := by
  unfold welcome
  dsimp only
  split
  · exact well.recovered fun frame listed => absurd listed List.not_mem_nil
  · rename_i viewer
    have allocated := allocated (by rw [← role]; exact Bool.not_eq_true _ ▸ viewer)
    split
    · rw [show w.writeFrame i w.geometryFrame = (true, w.deliver i w.geometryFrame) by
        unfold writeFrame
        dsimp only
        rw [if_neg (Nat.not_lt.mpr (geometryFrame_fits w)), if_neg (Option.isSome_iff_ne_none.mp well.1),
          if_pos (well.2 _)]]
      dsimp only
      have shown : Well (w.deliver i w.geometryFrame) i := well.setClient rfl rfl
      exact shown.replayed allocated _ _
    · exact well.replayed allocated _ _

theorem Well.serviced (well : Well w i) {frame : Option Frame} (stays : ¬ w.ServiceEnds i frame) :
    Well (w.serviceClient i frame) i := by
  unfold serviceClient
  rw [if_neg (Option.isSome_iff_ne_none.mp well.1)]
  cases frame with
  | none => exact absurd trivial stays
  | some frame =>
    dsimp only [ServiceEnds] at stays ⊢
    cases ready : (w.clients i).ready with
    | true =>
      rw [if_pos ready] at stays
      exact well.served stays
    | false =>
      rw [if_neg (by rw [ready]; exact Bool.false_ne_true)] at stays
      simp only [AttachEnds, not_or, not_exists, not_and, Decidable.not_not] at stays
      obtain ⟨kind, parsed, accepted⟩ := stays
      obtain ⟨request, asked⟩ := Option.ne_none_iff_exists'.mp parsed
      have accepted := accepted request asked
      have enrolled : Well (w.enrol i request) i :=
        Well.setClient (w := w.monotonicMilliseconds) (well.same rfl) rfl rfl
      have kept := ((refreshLeases_carries (w.enrol i request)).slot i).healthy enrolled.2
      have turn := enrolled.follows ((refreshLeases_carries (w.enrol i request)).slot i)
      have role : ((w.enrol i request).refreshLeases.clients i).control = request.control := by
        rw [kept.control]
        unfold enrol
        rw [setClient_same]
        rfl
      have welcomed := turn.welcomed role fun viewer => by
        have fine := (accepted viewer).2
        exact Bool.not_eq_false _ ▸ fine
      have begun : w.beginClient i frame.payload = (w.enrol i request).refreshLeases.welcome i request := by
        unfold beginClient
        rw [asked]
        dsimp only
        rw [if_neg]
        intro refused
        simp only [Bool.and_eq_true, Bool.not_eq_true', decide_eq_true_eq] at refused
        exact (accepted refused.1).1 refused.2
      rw [Bool.not_false, if_pos rfl, if_neg (not_not_intro kind), begun]
      split
      · rename_i next done
        rw [done] at welcomed
        exact welcomed.2
      · rename_i next refused
        rw [refused] at welcomed
        cases welcomed.1

end Machinen.Session.Worker
