import Machinen.Session.EventLoop

/-! What a write does to a slot, and what the loops over the slots do to all of
them. A write that fails closes the slot, and nothing else of it is left. -/
namespace Machinen.Session

/-- The next writes on the connection succeed. -/
def Client.takes (client : Client) (count : Nat) : Prop :=
  ∀ k < count, client.link.accepts (client.link.delivered.length + k) = true

/-- A client none of whose writes ever fails. -/
def Client.healthy (client : Client) : Prop := ∀ n, client.link.accepts n = true

theorem Client.viewer_open {client : Client} (viewer : client.viewer = true) :
    client.fd.isSome = true := by
  simp only [Client.viewer, Bool.and_eq_true] at viewer
  exact viewer.1.1

/-- The same connection in the same role, with some more frames of its stream. -/
structure Kept (frames : List Frame) (before after : Client) : Prop where
  fd : after.fd = before.fd
  ready : after.ready = before.ready
  control : after.control = before.control
  requested : after.requested = before.requested
  conn : after.link.conn = before.link.conn
  accepts : after.link.accepts = before.link.accepts
  attach : after.link.attach = before.link.attach
  stream : stream after.link.delivered = stream before.link.delivered ++ frames
  unused : before = {} → after = before

def Lost (before after : Client) : Prop :=
  before.fd.isSome = true ∧ after = {} ∧ ∃ n, before.link.accepts n = false

variable {frames : List Frame} {a b : Client} {c : Worker} {R : Client → Client → Prop} {i : Slot}

/-- A slot after a broadcast of stream frames, or after none. -/
def Follows (frames : List Frame) (before after : Client) : Prop :=
  Kept (if before.viewer then frames else []) before after ∨ Lost before after

namespace Kept

theorem refl (client : Client) : Kept [] client client :=
  ⟨rfl, rfl, rfl, rfl, rfl, rfl, rfl, (List.append_nil _).symm, fun _ => rfl⟩

theorem viewer (kept : Kept frames a b) :
    b.viewer = a.viewer := by
  simp only [Client.viewer, kept.fd, kept.ready, kept.control]

theorem trans {xs ys : List Frame} {c : Client} (first : Kept xs a b) (second : Kept ys b c) :
    Kept (xs ++ ys) a c where
  fd := second.fd.trans first.fd
  ready := second.ready.trans first.ready
  control := second.control.trans first.control
  requested := second.requested.trans first.requested
  conn := second.conn.trans first.conn
  accepts := second.accepts.trans first.accepts
  attach := second.attach.trans first.attach
  stream := by rw [second.stream, first.stream, List.append_assoc]
  unused := by
    intro empty
    have still := first.unused empty
    exact (second.unused (still.trans empty)).trans still

end Kept

namespace Follows

theorem refl (client : Client) : Follows [] client client := by
  left
  simpa only [ite_self] using Kept.refl client

theorem trans {xs ys : List Frame} {c : Client} (first : Follows xs a b)
    (second : Follows ys b c) : Follows (xs ++ ys) a c := by
  rcases first with kept | ⟨opened, empty, refused⟩
  · rcases second with kept' | ⟨opened', empty', refused'⟩
    · left
      rw [kept.viewer] at kept'
      have joined := kept.trans kept'
      split
      · rwa [if_pos ‹_›, if_pos ‹_›] at joined
      · rwa [if_neg ‹_›, if_neg ‹_›] at joined
    · right
      exact ⟨kept.fd ▸ opened', empty', kept.accepts ▸ refused'⟩
  · right
    have closed : c = b := by
      rcases second with kept' | ⟨opened', -, -⟩
      · exact kept'.unused empty
      · rw [empty] at opened'
        exact absurd opened' (by simp)
    exact ⟨opened, closed.trans empty, refused⟩

/-- Whatever happens to other connections, a healthy one stays. -/
theorem healthy (follows : Follows frames a b)
    (healthy : a.healthy) : Kept (if a.viewer then frames else []) a b := by
  rcases follows with kept | ⟨-, -, n, refused⟩
  · exact kept
  · exact absurd ((healthy n).symm.trans refused) (by simp)

theorem openSlot (follows : Follows frames a b)
    (opened : b.fd.isSome = true) : Kept (if a.viewer then frames else []) a b := by
  rcases follows with kept | ⟨-, empty, -⟩
  · exact kept
  · rw [empty] at opened
    exact absurd opened (by simp)

end Follows

namespace Worker

/-- Only slots, leases and what the kernel answers have changed. -/
structure Quiet (w w' : Worker) : Prop where
  journal : w'.journal = w.journal
  effects : w'.effects = w.effects
  misuse : w'.misuse = w.misuse
  crashed : w'.crashed = w.crashed
  checkpointBytes : w'.checkpointBytes = w.checkpointBytes

theorem Quiet.refl (w : Worker) : Quiet w w := ⟨rfl, rfl, rfl, rfl, rfl⟩

theorem Quiet.trans {a b : Worker} (first : Quiet a b) (second : Quiet b c) : Quiet a c :=
  ⟨second.journal.trans first.journal, second.effects.trans first.effects,
    second.misuse.trans first.misuse, second.crashed.trans first.crashed,
    second.checkpointBytes.trans first.checkpointBytes⟩

/-- Quiet, with the same frames for the stream of every viewer. -/
structure Carries (frames : List Frame) (w w' : Worker) : Prop extends Quiet w w' where
  slot : ∀ i, Follows frames (w.clients i) (w'.clients i)

theorem Carries.trans {xs ys : List Frame} {a b : Worker} (first : Carries xs a b)
    (second : Carries ys b c) : Carries (xs ++ ys) a c :=
  ⟨first.toQuiet.trans second.toQuiet, fun i => (first.slot i).trans (second.slot i)⟩

theorem Carries.quietly {a b : Worker} (first : Carries frames a b)
    (second : Carries [] b c) : Carries frames a c := List.append_nil frames ▸ first.trans second

/-- A change of one slot. -/
structure SlotStep (R : Client → Client → Prop) (i : Slot) (w w' : Worker) : Prop
    extends Quiet w w' where
  other : ∀ j, j ≠ i → w'.clients j = w.clients j
  own : R (w.clients i) (w'.clients i)

theorem SlotStep.same {w : Worker} (own : R (w.clients i) (w.clients i)) : SlotStep R i w w :=
  ⟨Quiet.refl w, fun _ _ => rfl, own⟩

theorem foldl_slots {turn : Worker → Slot → Worker}
    (each : ∀ w i, SlotStep R i w (turn w i)) {turns : List Slot} (once : turns.Nodup) (w : Worker) :
    Quiet w (turns.foldl turn w) ∧
      (∀ j ∈ turns, R (w.clients j) ((turns.foldl turn w).clients j)) ∧
      ∀ j, j ∉ turns → (turns.foldl turn w).clients j = w.clients j := by
  induction turns generalizing w with
  | nil => exact ⟨Quiet.refl w, fun j listed => absurd listed List.not_mem_nil, fun _ _ => rfl⟩
  | cons i rest ih =>
    obtain ⟨apart, once'⟩ := List.nodup_cons.mp once
    obtain ⟨quiet, listed, unlisted⟩ := ih once' (turn w i)
    have first := each w i
    refine ⟨first.toQuiet.trans quiet, ?_, ?_⟩
    · intro j member
      rcases List.mem_cons.mp member with here | later
      · subst here
        rw [List.foldl_cons, unlisted j apart]
        exact first.own
      · have elsewhere : j ≠ i := fun here => apart (here ▸ later)
        rw [← first.other j elsewhere]
        exact listed j later
    · intro j absent
      obtain ⟨elsewhere, later⟩ : j ≠ i ∧ j ∉ rest := by simpa only [List.mem_cons, not_or] using absent
      exact (unlisted j later).trans (first.other j elsewhere)

theorem slots_nodup : slots.Nodup := List.nodup_finRange _

theorem mem_slots (i : Slot) : i ∈ slots := List.mem_finRange i

theorem foldl_all_slots {turn : Worker → Slot → Worker}
    (each : ∀ w i, SlotStep R i w (turn w i)) (w : Worker) :
    Quiet w (slots.foldl turn w) ∧ ∀ j, R (w.clients j) ((slots.foldl turn w).clients j) := by
  obtain ⟨quiet, listed, -⟩ := foldl_slots each slots_nodup w
  exact ⟨quiet, fun j => listed j (mem_slots j)⟩

@[simp] theorem setClient_same (w : Worker) (i : Slot) (client : Client) :
    (w.setClient i client).clients i = client := Function.update_self _ _ _

theorem setClient_other (w : Worker) {j : Slot} (apart : j ≠ i) (client : Client) :
    (w.setClient i client).clients j = w.clients j := Function.update_of_ne apart _ _

@[simp] theorem setClient_twice (w : Worker) (i : Slot) (first second : Client) :
    (w.setClient i first).setClient i second = w.setClient i second := by
  simp only [setClient, Function.update_idem]

@[simp] theorem setClient_self (w : Worker) (i : Slot) : w.setClient i (w.clients i) = w := by
  simp only [setClient, Function.update_eq_self]

@[simp] theorem closeClient_same (w : Worker) (i : Slot) : (w.closeClient i).clients i = {} :=
  Function.update_self _ _ _

theorem closeClient_other (w : Worker) {j : Slot} (apart : j ≠ i) :
    (w.closeClient i).clients j = w.clients j := Function.update_of_ne apart _ _

theorem closeClient_quiet (w : Worker) (i : Slot) : Quiet w (w.closeClient i) :=
  ⟨rfl, rfl, rfl, rfl, rfl⟩

def deliverAll (w : Worker) (i : Slot) (frames : List Frame) : Worker :=
  let client := w.clients i
  w.setClient i { client with
    link := { client.link with delivered := client.link.delivered ++ frames } }

theorem deliverAll_nil (w : Worker) (i : Slot) : w.deliverAll i [] = w := by
  simp only [deliverAll, List.append_nil]
  exact setClient_self w i

theorem deliverAll_cons (w : Worker) (i : Slot) (frame : Frame) (frames : List Frame) :
    (w.deliver i frame).deliverAll i frames = w.deliverAll i (frame :: frames) := by
  simp only [deliver, deliverAll, setClient_same, setClient_twice, List.append_assoc,
    List.singleton_append]

theorem deliverAll_quiet (w : Worker) (i : Slot) (frames : List Frame) :
    Quiet w (w.deliverAll i frames) := ⟨rfl, rfl, rfl, rfl, rfl⟩

/-- On an open connection the writes of a list of frames all succeed, or some of
the frames are written and then one is refused. -/
theorem writeFrames_eq (w : Worker) (i : Slot) (frames : List Frame)
    (opened : (w.clients i).fd.isSome = true)
    (fits : ∀ frame ∈ frames, frame.payload.length ≤ maxFramePayload) :
    ((w.clients i).takes frames.length ∧ w.writeFrames i frames = (true, w.deliverAll i frames)) ∨
    (¬ (w.clients i).takes frames.length ∧
      ∃ sent, w.writeFrames i frames = (false, w.deliverAll i sent)) := by
  induction frames generalizing w with
  | nil =>
    left
    exact ⟨fun k impossible => absurd impossible (Nat.not_lt_zero k), by
      rw [deliverAll_nil]; rfl⟩
  | cons frame rest ih =>
    have small : ¬ maxFramePayload < frame.payload.length :=
      Nat.not_lt.mpr (fits frame List.mem_cons_self)
    have present : (w.clients i).fd ≠ none := fun absent => by simp [absent] at opened
    by_cases ok : (w.clients i).link.accepts (w.clients i).link.delivered.length = true
    · have written : w.writeFrame i frame = (true, w.deliver i frame) := by
        simp only [writeFrame, if_neg small, if_neg present, if_pos ok]
      have shifted : ((w.deliver i frame).clients i).takes rest.length ↔
          (w.clients i).takes (frame :: rest).length := by
        simp only [Client.takes, deliver, setClient_same, List.length_append, List.length_cons,
          List.length_nil]
        constructor
        · intro later k inside
          cases k with
          | zero => exact ok
          | succ k =>
            have next := later k (by omega)
            rwa [show (w.clients i).link.delivered.length + (k + 1) =
              (w.clients i).link.delivered.length + (0 + 1) + k by omega]
        · intro all k inside
          rw [show (w.clients i).link.delivered.length + (0 + 1) + k =
            (w.clients i).link.delivered.length + (k + 1) by omega]
          exact all (k + 1) (by omega)
      have opened' : ((w.deliver i frame).clients i).fd.isSome = true := by
        simpa only [deliver, setClient_same] using opened
      have later := ih (w.deliver i frame) opened'
        (fun other listed => fits other (List.mem_cons_of_mem _ listed))
      simp only [writeFrames, written]
      rcases later with ⟨takes, done⟩ | ⟨refused, sent, done⟩
      · left
        exact ⟨shifted.mp takes, by rw [done, deliverAll_cons]⟩
      · right
        exact ⟨fun takes => refused (shifted.mpr takes), frame :: sent, by
          rw [done, deliverAll_cons]⟩
    · right
      have failed : w.writeFrame i frame = (false, w) := by
        simp only [writeFrame, if_neg small, if_neg present, if_neg ok]
      constructor
      · intro takes
        exact ok (takes 0 (Nat.succ_pos _))
      · exact ⟨[], by simp only [writeFrames, failed, deliverAll_nil]⟩

theorem closeClient_deliverAll (w : Worker) (i : Slot) (frames : List Frame) :
    (w.deliverAll i frames).closeClient i = w.closeClient i := by
  simp only [closeClient, deliverAll, setClient_same, setClient_twice]
  rfl

theorem sendOrClose_eq (w : Worker) (i : Slot) (frames : List Frame)
    (opened : (w.clients i).fd.isSome = true)
    (fits : ∀ frame ∈ frames, frame.payload.length ≤ maxFramePayload) :
    ((w.clients i).takes frames.length ∧ w.sendOrClose i frames = w.deliverAll i frames) ∨
    (¬ (w.clients i).takes frames.length ∧ w.sendOrClose i frames = w.closeClient i) := by
  rcases writeFrames_eq w i frames opened fits with ⟨takes, written⟩ | ⟨refused, sent, written⟩
  · left
    exact ⟨takes, by simp only [sendOrClose, written]⟩
  · right
    exact ⟨refused, by simp only [sendOrClose, written, closeClient_deliverAll]⟩

theorem kept_deliverAll (w : Worker) (i : Slot) (frames : List Frame)
    (opened : (w.clients i).fd.isSome = true) :
    Kept (stream frames) (w.clients i) ((w.deliverAll i frames).clients i) := by
  have present : (w.clients i).fd ≠ none := fun absent => by simp [absent] at opened
  simp only [deliverAll, setClient_same]
  exact ⟨rfl, rfl, rfl, rfl, rfl, rfl, rfl, stream_append _ _, fun empty => absurd (empty ▸ rfl) present⟩

/-- Frames sent to an open slot reach it, or the slot is lost. -/
theorem sendOrClose_step (w : Worker) (i : Slot) (frames : List Frame)
    (opened : (w.clients i).fd.isSome = true)
    (fits : ∀ frame ∈ frames, frame.payload.length ≤ maxFramePayload) :
    SlotStep (fun a b => Kept (stream frames) a b ∨ Lost a b) i w (w.sendOrClose i frames) := by
  rcases sendOrClose_eq w i frames opened fits with ⟨-, sent⟩ | ⟨refused, closed⟩
  · rw [sent]
    exact ⟨deliverAll_quiet w i frames, fun j apart => setClient_other w apart _,
      .inl (kept_deliverAll w i frames opened)⟩
  · rw [closed]
    have bad : ∃ n, (w.clients i).link.accepts n = false := by
      by_contra none
      apply refused
      intro k _
      by_contra no
      exact none ⟨_, Bool.eq_false_iff.mpr no⟩
    exact ⟨closeClient_quiet w i, fun j apart => closeClient_other w apart,
      .inr ⟨opened, closeClient_same w i, bad⟩⟩

theorem carries_of_slots (turn : Worker → Slot → Worker)
    (each : ∀ w i, SlotStep (Follows []) i w (turn w i)) (w : Worker) :
    Carries [] w (slots.foldl turn w) := by
  obtain ⟨quiet, slot⟩ := foldl_all_slots each w
  exact ⟨quiet, slot⟩

theorem sendOrClose_follows (w : Worker) (i : Slot) (frame : Frame)
    (opened : (w.clients i).fd.isSome = true) (fits : frame.payload.length ≤ maxFramePayload)
    (outside : frame.isStream = false) : SlotStep (Follows []) i w (w.sendOrClose i [frame]) := by
  have step := sendOrClose_step w i [frame] opened (by simpa using fits)
  have none : stream [frame] = [] := by simp [stream, outside]
  refine ⟨step.toQuiet, step.other, ?_⟩
  rcases step.own with kept | lost
  · left
    simpa only [none, ite_self] using kept
  · exact .inr lost

theorem geometryFrame_fits (w : Worker) : w.geometryFrame.payload.length ≤ maxFramePayload := by
  simp only [geometryFrame, List.length_append, Bytes.be_length, maxFramePayload]
  omega

theorem broadcastGeometrySlot_step (w : Worker) (i : Slot) :
    SlotStep (Follows []) i w (w.broadcastGeometrySlot i) := by
  unfold broadcastGeometrySlot
  split
  · rename_i wanted
    simp only [Bool.and_eq_true] at wanted
    exact sendOrClose_follows w i _ (Client.viewer_open wanted.1) (geometryFrame_fits w) rfl
  · exact SlotStep.same (Follows.refl _)

theorem broadcastGeometry_carries (w : Worker) : Carries [] w w.broadcastGeometry :=
  carries_of_slots broadcastGeometrySlot broadcastGeometrySlot_step w

theorem broadcastOutput_carries (w : Worker) (sequence : Nat) (payload : Bytes) :
    Carries (sequencedOutput sequence payload) w (w.broadcastOutput sequence payload) := by
  have each : ∀ w' i, SlotStep (Follows (sequencedOutput sequence payload)) i w'
      (if (w'.clients i).viewer then w'.sendOrClose i (sequencedOutput sequence payload) else w') := by
    intro w' i
    split
    · rename_i viewer
      have step := sendOrClose_step w' i (sequencedOutput sequence payload)
        (Client.viewer_open viewer) (fun frame => sequencedOutput_fits)
      refine ⟨step.toQuiet, step.other, ?_⟩
      rcases step.own with kept | lost
      · left
        rw [sequencedOutput_stream sequence payload] at kept
        simpa only [if_pos viewer] using kept
      · exact .inr lost
    · rename_i other
      apply SlotStep.same
      left
      rw [if_neg other]
      exact Kept.refl _
  obtain ⟨quiet, slot⟩ := foldl_all_slots each w
  exact ⟨quiet, slot⟩

/-- The same client with other marks; a slot without a descriptor gets none. -/
def Remarked (before after : Client) : Prop :=
  ∃ marks, after = { before with granted := marks } ∧
    (before.fd = none → marks = fun _ => false)

theorem Remarked.kept {before after : Client} (remarked : Remarked before after) :
    Kept [] before after := by
  obtain ⟨marks, rfl, unmarked⟩ := remarked
  refine ⟨rfl, rfl, rfl, rfl, rfl, rfl, rfl, (List.append_nil _).symm, ?_⟩
  intro empty
  subst empty
  rw [unmarked rfl]

theorem Remarked.trans {c : Client} (first : Remarked a b) (second : Remarked b c) :
    Remarked a c := by
  obtain ⟨marks, rfl, -⟩ := first
  obtain ⟨marks', rfl, unmarked⟩ := second
  exact ⟨marks', rfl, unmarked⟩

theorem clearGranted_step (w : Worker) (i : Slot) :
    SlotStep Remarked i w (w.setGranted i fun _ => false) :=
  ⟨⟨rfl, rfl, rfl, rfl, rfl⟩, fun _ apart => setClient_other w apart _,
    fun _ => false, setClient_same w i _, fun _ => rfl⟩

theorem grant_step (w : Worker) (i : Slot) (flag : LeaseFlag)
    (unmarked : (w.clients i).fd = none → (w.clients i).granted = fun _ => false) :
    SlotStep Remarked i w (w.grant i flag) := by
  simp only [grant]
  split
  · rename_i may
    simp only [Bool.and_eq_true, alive] at may
    have opened := Client.viewer_open may.1.1.1
    refine ⟨⟨rfl, rfl, rfl, rfl, rfl⟩, fun _ apart => setClient_other w apart _, ?_⟩
    exact ⟨_, setClient_same w i _, fun absent => by simp [absent] at opened⟩
  · exact SlotStep.same ⟨(w.clients i).granted, rfl, unmarked⟩

theorem SlotStep.trans {S T : Client → Client → Prop} {a b : Worker} (first : SlotStep R i a b)
    (second : SlotStep S i b c) (joined : ∀ x y z, R x y → S y z → T x z) : SlotStep T i a c where
  toQuiet := first.toQuiet.trans second.toQuiet
  other := fun j apart => (second.other j apart).trans (first.other j apart)
  own := joined _ _ _ first.own second.own

theorem Remarked.unmarked {before after : Client} (remarked : Remarked before after)
    (absent : after.fd = none) : after.granted = fun _ => false := by
  obtain ⟨marks, rfl, unmarked⟩ := remarked
  exact unmarked absent

/-- A turn of the refresh changes the marks of its own slot only. -/
theorem regrant_step (w : Worker) (i : Slot) : SlotStep Remarked i w (w.regrant i) := by
  have cleared := clearGranted_step w i
  have first := cleared.trans (grant_step _ i .writer cleared.own.unmarked)
    (fun _ _ _ => Remarked.trans)
  exact first.trans (grant_step _ i .resize first.own.unmarked) (fun _ _ _ => Remarked.trans)

theorem leaseFrame_fits (granted requested : LeaseFlags) :
    (leaseFrame granted requested).payload.length ≤ maxFramePayload := by
  simp [leaseFrame, maxFramePayload]

theorem refreshSlot_step (w : Worker) (i : Slot) : SlotStep (Follows []) i w (w.refreshSlot i) := by
  have marked := regrant_step w i
  have kept : SlotStep (Follows []) i w (w.regrant i) := by
    refine ⟨marked.toQuiet, marked.other, .inl ?_⟩
    simpa only [ite_self] using marked.own.kept
  simp only [refreshSlot]
  split
  · rename_i changed
    simp only [Bool.and_eq_true] at changed
    have sent := sendOrClose_follows (w.regrant i) i
      (leaseFrame ((w.regrant i).clients i).granted ((w.regrant i).clients i).requested)
      changed.1.1 (leaseFrame_fits _ _) rfl
    exact kept.trans sent fun _ _ _ => Follows.trans
  · exact kept

theorem refreshLeases_carries (w : Worker) : Carries [] w w.refreshLeases := by
  have aside : Carries [] w w.monotonicMilliseconds.expireLeases :=
    ⟨⟨rfl, rfl, rfl, rfl, rfl⟩, fun i => Follows.refl (w.clients i)⟩
  rw [refreshLeases]
  exact aside.quietly (carries_of_slots refreshSlot refreshSlot_step w.monotonicMilliseconds.expireLeases)

theorem setBroadcastOwner_carries (w : Worker) (owner : Option Nat) :
    Carries [] w (w.setBroadcastOwner owner) :=
  ⟨⟨rfl, rfl, rfl, rfl, rfl⟩, fun i => Follows.refl (w.clients i)⟩

theorem refreshGeometryOwner_carries (w : Worker) : Carries [] w w.refreshGeometryOwner := by
  have refreshed := refreshLeases_carries w
  simp only [refreshGeometryOwner]
  split
  · exact refreshed
  · have noted := setBroadcastOwner_carries w.refreshLeases w.refreshLeases.ownerClientId
    exact refreshed.quietly (noted.quietly (broadcastGeometry_carries _))

end Worker
end Machinen.Session
