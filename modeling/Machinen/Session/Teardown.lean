import Machinen.Session.OwnEnds

/-! Teardown in the event loop. A step that keeps to three conditions on the
connections it writes to never uses a closed slot or an old poll result, and
takes nothing from a client whose own writes succeed. -/
namespace Machinen.Session.Loop

open Worker

/-- The three places where the loop goes on with a slot that it may just have
closed: a connection is accepted into a slot whose poll results are still to be
used; the flush before a client is served fails on that client; the lease frame
of an attach fails on the attaching client. -/
def orderly (s : Loop) (input : Input) : Bool :=
  match s.phase with
  | .accept =>
    match input.accepted, s.worker.freeSlot with
    | some connection, some i =>
      !s.polled.listener || !connection.timeoutSet || decide (s.polled.clients i = {})
    | _, _ => true
  | .flushing i =>
    let client := s.worker.clients i
    !(s.polled.clients i).readable || !client.viewer ||
      (List.range (sequencedOutput (s.worker.journal.sequence + 1)
        s.worker.journal.pending.bytes).length).all fun k =>
          client.link.accepts (client.link.delivered.length + k)
  | .serving i => (s.entered input).attachTaken i input.frame
  | _ => true

/-- The ends of a client that are its own: what it sent, or did not send, when it was served; the
session's end; a hang-up on its connection. -/
def OwnEnd (s : Loop) (input : Input) (i : Slot) : Prop :=
  (s.phase = .serving i ∧ (s.entered input).ServiceEnds i input.frame) ∨ s.phase = .finish ∨
    (s.phase = .hangup i ∧ (s.polled.clients i).hungUp = true ∧
      s.polledConn i = connOf s.worker i)

def Transferred (s : Loop) (input : Input) : Prop :=
  ∃ i, s.phase = .serving i ∧ Transfer s.worker i input.frame

/-- What a step leaves of a client none of whose writes fails. -/
structure Undisturbed (s : Loop) (input : Input) (t : Loop) (i : Slot) : Prop where
  stays : ((t.worker.clients i).fd = (s.worker.clients i).fd ∧
      (t.worker.clients i).link.conn = (s.worker.clients i).link.conn) ∨
    ((t.worker.clients i).fd = none ∧ OwnEnd s input i)
  leases : (t.worker.clients i).fd.isSome = true → ∀ flag,
    (s.worker.clients i).granted flag = true → (t.worker.clients i).granted flag = true ∨
      Expired (s.worker.clients i) (t.worker.clients i) t.worker.nowMs ∨ Transferred s input
  position : (t.worker.clients i).fd.isSome = true → (s.worker.clients i).viewer = true →
    stream (t.worker.clients i).link.delivered = stream (s.worker.clients i).link.delivered ++
      outputFrames (numbered (s.worker.journal.outputs.length + 1)
        (t.worker.journal.outputs.drop s.worker.journal.outputs.length))

structure Safe (s : Loop) : Prop where
  misuse : s.worker.misuse = []
  exactly : Exact s
  agree : s.worker.Agree
  fresh : s.phase ≠ .poll → s.phase ≠ .done → ∀ i, s.polled.clients i ≠ {} →
    (s.worker.clients i).fd.isSome = true → connOf s.worker i = s.polledConn i
  serving : ∀ i, s.phase = .serving i → (s.worker.clients i).fd.isSome = true

/-- The slots that are still open belong to the connections they belonged to. -/
def SameConns (w w' : Worker) : Prop :=
  ∀ i, (w'.clients i).fd.isSome = true → connOf w' i = connOf w i

variable {w w' : Worker} {i : Slot} {s t : Loop} {input : Input}

theorem connOf_eq (fd : (w'.clients i).fd = (w.clients i).fd)
    (conn : (w'.clients i).link.conn = (w.clients i).link.conn) : connOf w' i = connOf w i := by
  simp only [connOf, fd, conn]

theorem advances_sameConns (advances : Advances w w') : SameConns w w' := by
  intro i opened
  obtain ⟨new, -, slot⟩ := advances.published
  have kept := (slot i).openSlot opened
  exact connOf_eq kept.fd kept.conn

theorem aside_sameConns (aside : Aside i w w') : SameConns w w' := by
  intro j opened
  by_cases here : j = i
  · subst here
    obtain ⟨fd, conn⟩ := aside.own opened
    exact connOf_eq fd conn
  · have kept := (aside.other j here).openSlot opened
    exact connOf_eq kept.fd kept.conn

theorem advances_undisturbed (advances : Advances s.worker t.worker)
    (i : Slot) (healthy : (s.worker.clients i).healthy) : Undisturbed s input t i := by
  obtain ⟨new, outputs, slot⟩ := advances.published
  have kept := (slot i).healthy healthy
  constructor
  · exact .inl ⟨kept.fd, kept.conn⟩
  · intro opened flag marked
    left
    rw [(advances.marked i opened).2.1]
    exact marked
  · intro _ viewer
    rw [kept.stream, if_pos viewer, outputs, List.drop_left]

theorem refresh_undisturbed (carries : Carries [] s.worker t.worker)
    (leases : KeepsLeases s.worker t.worker) (i : Slot) (healthy : (s.worker.clients i).healthy) :
    Undisturbed s input t i := by
  have kept := (carries.slot i).healthy healthy
  rw [ite_self] at kept
  constructor
  · exact .inl ⟨kept.fd, kept.conn⟩
  · intro opened flag marked
    exact (leases i flag marked opened).imp_right .inl
  · intro _ _
    rw [kept.stream, carries.journal, List.drop_length]
    rfl

theorem aside_undisturbed {served : Slot} (aside : Aside served s.worker t.worker)
    (leases : KeepsLeases s.worker t.worker ∨ Transferred s input) (i : Slot) (apart : i ≠ served)
    (healthy : (s.worker.clients i).healthy) : Undisturbed s input t i := by
  have kept := (aside.other i apart).healthy healthy
  rw [ite_self] at kept
  constructor
  · exact .inl ⟨kept.fd, kept.conn⟩
  · intro opened flag marked
    rcases leases with keeps | moved
    · exact (keeps i flag marked opened).imp_right .inl
    · exact .inr (.inr moved)
  · intro _ _
    rw [kept.stream, aside.outputs, List.drop_length]
    rfl

theorem own_undisturbed
    (aside : Aside i s.worker t.worker)
    (leases : KeepsLeases s.worker t.worker ∨ Transferred s input)
    (ended : (t.worker.clients i).fd = none → OwnEnd s input i)
    (kept : (s.worker.clients i).viewer = true →
      Settled (s.worker.clients i) (t.worker.clients i)) : Undisturbed s input t i := by
  constructor
  · by_cases opened : (t.worker.clients i).fd.isSome = true
    · exact .inl (aside.own opened)
    · have closed : (t.worker.clients i).fd = none := by simpa using opened
      exact .inr ⟨closed, ended closed⟩
  · intro opened flag marked
    rcases leases with keeps | moved
    · exact (keeps i flag marked opened).imp_right .inl
    · exact .inr (.inr moved)
  · intro opened viewer
    rcases kept viewer with same | closed
    · rw [same.stream, aside.outputs, List.drop_length]
      rfl
    · rw [closed] at opened
      exact absurd opened Bool.false_ne_true

theorem entered_aside (s : Loop) (input : Input) (i : Slot) : Aside i s.worker (s.entered input) :=
  ⟨rfl, rfl, fun _ _ => Follows.refl _, fun _ => ⟨rfl, rfl⟩⟩

theorem Safe.entered (safe : Safe s) (input : Input) :
    Tracks (s.entered input).journal.pending.bytes s.read (s.entered input) :=
  ⟨safe.exactly.tracks.sound, safe.exactly.tracks.known, safe.exactly.tracks.all⟩

theorem entered_carries (s : Loop) (input : Input) : Carries [] s.worker (s.entered input) :=
  ⟨⟨rfl, rfl, rfl, rfl, rfl⟩, fun _ => Follows.refl _⟩

theorem entered_advances (s : Loop) (input : Input) : Advances s.worker (s.entered input) :=
  still_advances rfl rfl rfl

theorem notePoll_same (safe : Safe s) (input : Input)
    (started : s.phase ≠ .poll) (running : s.phase ≠ .done) (reported : s.polled.clients i ≠ {}) :
    s.notePoll (s.entered input) i = s.entered input := by
  unfold notePoll
  rw [if_neg]
  rintro ⟨opened, stale⟩
  exact stale (safe.fresh started running i reported opened)

theorem carries_sameConns {frames : List Frame} (carries : Carries frames w w') :
    SameConns w w' := by
  intro i opened
  have kept := (carries.slot i).openSlot opened
  exact connOf_eq kept.fd kept.conn

structure Continues (s t : Loop) : Prop where
  misuse : t.worker.misuse = s.worker.misuse
  conns : ∀ i, s.polled.clients i ≠ {} → (t.worker.clients i).fd.isSome = true →
    connOf t.worker i = connOf s.worker i
  polled : t.polled = s.polled
  polledConn : t.polledConn = s.polledConn
  started : s.phase ≠ .poll
  running : s.phase ≠ .done
  serving : ∀ i, t.phase = .serving i → (t.worker.clients i).fd.isSome = true

theorem Continues.safe (continues : Continues s t) (safe : Safe s) (exactly : Exact t)
    (agree : t.worker.Agree) : Safe t where
  misuse := continues.misuse.trans safe.misuse
  exactly := exactly
  agree := agree
  fresh := by
    intro _ _ i reported opened
    rw [continues.polled] at reported
    have same := continues.conns i reported opened
    have present : (s.worker.clients i).fd.isSome = true := by
      have some : (connOf t.worker i).isSome = true := by simpa [connOf] using opened
      rw [same] at some
      simpa [connOf] using some
    rw [same, continues.polledConn]
    exact safe.fresh continues.started continues.running i reported present
  serving := continues.serving

theorem refreshGeometryOwner_keepsLeases (w : Worker) (agree : w.Agree) :
    KeepsLeases w w.refreshGeometryOwner := by
  have refreshed := refreshLeases_keepsLeases w agree
  simp only [refreshGeometryOwner]
  generalize w.refreshLeases = v at refreshed ⊢
  split
  · exact refreshed
  · have noted : Restful v (v.setBroadcastOwner v.ownerClientId) := ⟨rfl, fun _ => Marked.refl _⟩
    exact refreshed.then (noted.trans (broadcastGeometry_restful _))

structure Orderly (s : Loop) (input : Input) (t : Loop) : Prop where
  continues : Continues s t
  undisturbed : ∀ i, (s.worker.clients i).fd.isSome = true → (s.worker.clients i).healthy →
    Undisturbed s input t i

theorem advances_orderly (advances : Advances s.worker t.worker)
    (started : s.phase ≠ .poll) (running : s.phase ≠ .done) (polled : t.polled = s.polled)
    (polledConn : t.polledConn = s.polledConn)
    (serving : ∀ i, t.phase = .serving i → (t.worker.clients i).fd.isSome = true) :
    Orderly s input t where
  continues := ⟨advances.misuse, fun i _ => advances_sameConns advances i, polled, polledConn, started,
    running, serving⟩
  undisturbed := fun i _ healthy => advances_undisturbed advances i healthy

theorem refresh_orderly {phase : Phase} (safe : Safe s)
    (started : s.phase ≠ .poll) (running : s.phase ≠ .done) (serving : ∀ i, phase ≠ .serving i) :
    Orderly s input { s with worker := (s.entered input).refreshGeometryOwner, phase := phase } := by
  have carries : Carries [] s.worker (s.entered input).refreshGeometryOwner :=
    (entered_carries s input).quietly (refreshGeometryOwner_carries _)
  have leases : KeepsLeases s.worker (s.entered input).refreshGeometryOwner :=
    refreshGeometryOwner_keepsLeases (s.entered input) safe.agree
  generalize (s.entered input).refreshGeometryOwner = w at carries leases ⊢
  constructor
  · exact ⟨carries.misuse, fun i _ => carries_sameConns carries i, rfl, rfl, started, running,
      fun i there => absurd there (serving i)⟩
  · intro i _ healthy
    exact refresh_undisturbed carries leases i healthy

theorem accept_orderly (here : s.phase = .accept) (ok : s.orderly input = true)
    (moved : s.acceptStep (s.entered input) input = some t) : Orderly s input t := by
  have unchanged : ∀ {u : Loop}, u.worker = s.entered input → u.polled = s.polled →
      u.polledConn = s.polledConn → u.phase = .pty → Orderly s input u := by
    intro u worker polled polledConn phase
    apply advances_orderly
    · rw [worker]
      exact entered_advances s input
    · rw [here]; exact Phase.noConfusion
    · rw [here]; exact Phase.noConfusion
    · exact polled
    · exact polledConn
    · rw [phase]
      exact fun i there => Phase.noConfusion there
  simp only [acceptStep] at moved
  split at moved
  · rw [← Option.some.inj moved]
    exact unchanged rfl rfl rfl rfl
  rename_i listening
  split at moved
  · exact absurd moved (by simp)
  rw [← Option.some.inj moved]
  cases accepted : input.accepted with
  | none => exact unchanged rfl rfl rfl rfl
  | some connection =>
    cases timeout : connection.timeoutSet with
    | false => exact unchanged (by simp [acceptClient, timeout]) rfl rfl rfl
    | true =>
      cases free : (s.entered input).freeSlot with
      | none => exact unchanged (by simp [acceptClient, timeout, free]) rfl rfl rfl
      | some i =>
        have unused : (s.worker.clients i).fd = none := by
          have found := List.find?_some (p := fun j => ((s.entered input).clients j).fd.isNone) free
          exact Option.isNone_iff_eq_none.mp found
        have free' : s.worker.freeSlot = some i := free
        have unpolled : s.polled.clients i = {} := by
          simpa [orderly, here, accepted, free', timeout, listening] using ok
        have elsewhere : ∀ j, j ≠ i →
            ((s.entered input).acceptClient (some connection) s.nextConn).clients j =
              s.worker.clients j := by
          intro j apart
          simp only [acceptClient, timeout, free]
          exact setClient_other _ apart _
        have quiet : ((s.entered input).acceptClient (some connection) s.nextConn).misuse =
            s.worker.misuse ∧
            ((s.entered input).acceptClient (some connection) s.nextConn).journal =
              s.worker.journal := by
          simp only [acceptClient, timeout, free]
          exact ⟨rfl, rfl⟩
        constructor
        · refine ⟨quiet.1, fun j reported _ => ?_, rfl, rfl, ?_, ?_, fun _ there =>
            Phase.noConfusion there⟩
          · have apart : j ≠ i := fun same => reported (same ▸ unpolled)
            simp only [connOf, elsewhere j apart]
          · rw [here]; exact Phase.noConfusion
          · rw [here]; exact Phase.noConfusion
        · intro j opened _
          have apart : j ≠ i := by
            intro same
            rw [same, unused] at opened
            exact Bool.false_ne_true opened
          have same := elsewhere j apart
          constructor
          · left
            rw [same]
            exact ⟨rfl, rfl⟩
          · intro _ flag marked
            left
            rw [same]
            exact marked
          · intro _ _
            rw [same, quiet.2, List.drop_length]
            exact (List.append_nil _).symm

theorem pty_orderly (safe : Safe s) (here : s.phase = .pty) :
    Orderly s input (s.ptyStep (s.entered input) input) := by
  have started : s.phase ≠ .poll := by rw [here]; exact Phase.noConfusion
  have running : s.phase ≠ .done := by rw [here]; exact Phase.noConfusion
  have still := entered_advances s input
  have buffered := bufferOutput_advances (s.entered input) (input.reads.headD [])
    (safe.entered input)
  have later : ∀ i, (if s.polled.pty.hungUp then .drain else firstSlot) ≠ Phase.serving i := by
    intro i
    split <;> exact fun there => Phase.noConfusion there
  simp only [ptyStep]
  split
  · exact advances_orderly still started running rfl rfl fun i there => absurd there (later i)
  split
  · exact advances_orderly still started running rfl rfl fun i there => Phase.noConfusion there
  · exact advances_orderly (still.trans buffered) started running rfl rfl
      fun i there => absurd there (later i)

theorem flushing_orderly (safe : Safe s) (here : s.phase = .flushing i) (ok : s.orderly input = true) :
    Orderly s input (s.flushingStep (s.entered input) i) := by
  have started : s.phase ≠ .poll := by rw [here]; exact Phase.noConfusion
  have running : s.phase ≠ .done := by rw [here]; exact Phase.noConfusion
  have still := entered_advances s input
  unfold flushingStep
  split
  · exact advances_orderly still started running rfl rfl
      fun j there => absurd there (nextSlot_serves i j)
  rename_i present
  split
  · rename_i readable
    have reported : s.polled.clients i ≠ {} := by
      intro none
      rw [none] at readable
      exact Bool.false_ne_true readable
    rw [notePoll_same safe input started running reported]
    have flushed := flushOutput_advances (s.entered input) safe.exactly.tracks.sound.counted
    refine advances_orderly (still.trans flushed) started running rfl rfl ?_
    intro j there
    cases there
    apply flushOutput_opened (s.entered input) i (Option.isSome_iff_ne_none.mpr present)
    intro viewer k inside
    have viewer' : (s.worker.clients i).viewer = true := viewer
    simp only [orderly, here, readable, viewer', Bool.not_true, Bool.false_or,
      List.all_eq_true, List.mem_range] at ok
    exact ok k inside
  · exact advances_orderly still started running rfl rfl fun j there => Phase.noConfusion there

theorem serviceClient_settled (w : Worker) (i : Slot) (frame : Option Frame)
    (viewer : (w.clients i).viewer = true) :
    Settled (w.clients i) ((w.serviceClient i frame).clients i) := by
  have opened := Client.viewer_open viewer
  have ready : (w.clients i).ready = true := by
    simp only [Client.viewer, Bool.and_eq_true] at viewer
    exact viewer.1.2
  unfold serviceClient
  rw [if_neg (Option.isSome_iff_ne_none.mp opened)]
  split
  · exact .inr (closeClient_same w i)
  · rw [ready]
    exact (serviceReadyClient_settles w i _ opened).slot i

theorem serving_orderly (safe : Safe s) (here : s.phase = .serving i) (ok : s.orderly input = true) :
    Orderly s input { s with
      worker := (s.entered input).serviceClient i input.frame, phase := .hangup i } := by
  have opened := safe.serving i here
  have empty := safe.exactly.flushed i here
  have taken : (s.entered input).attachTaken i input.frame = true := by
    simpa only [orderly, here] using ok
  obtain ⟨aside, leases⟩ := serviceClient_gentle (s.entered input) i input.frame safe.agree
    (empty ▸ safe.exactly.tracks.sound) opened (safe.exactly.tracks.known i) taken
  have aside' : Aside i s.worker ((s.entered input).serviceClient i input.frame) :=
    (entered_aside s input i).trans aside
  have leases' : KeepsLeases s.worker ((s.entered input).serviceClient i input.frame) ∨
      Transferred s input := by
    rcases leases with keeps | moved
    · exact .inl keeps
    · exact .inr ⟨i, here, moved⟩
  constructor
  · exact ⟨aside'.misuse, fun j _ => aside_sameConns aside' j, rfl, rfl,
      by rw [here]; exact Phase.noConfusion,
      by rw [here]; exact Phase.noConfusion, fun j there => Phase.noConfusion there⟩
  · intro j _ healthy
    by_cases same : j = i
    · subst same
      refine own_undisturbed aside' leases' (fun closed => .inl ⟨here, ?_⟩)
        (serviceClient_settled (s.entered input) j input.frame)
      by_contra stays
      have well : Well (s.entered input) j := ⟨opened, healthy⟩
      have open_ := (well.serviced stays).1
      rw [closed] at open_
      exact Bool.false_ne_true open_
    · exact aside_undisturbed aside' leases' j same healthy

theorem hangup_orderly (safe : Safe s)
    (here : s.phase = .hangup i) : Orderly s input (s.hangupStep (s.entered input) i) := by
  have started : s.phase ≠ .poll := by rw [here]; exact Phase.noConfusion
  have running : s.phase ≠ .done := by rw [here]; exact Phase.noConfusion
  unfold hangupStep
  split
  · rename_i hungUp
    have reported : s.polled.clients i ≠ {} := by
      intro none
      rw [none] at hungUp
      exact Bool.false_ne_true hungUp
    rw [notePoll_same safe input started running reported]
    have closed := closeClient_tail (s.entered input) i
    have aside : Aside i s.worker ((s.entered input).closeClient i) :=
      (entered_aside s input i).trans closed.aside
    have leases : KeepsLeases s.worker ((s.entered input).closeClient i) := closed.restful.keepsLeases
    constructor
    · exact ⟨aside.misuse, fun j _ => aside_sameConns aside j, rfl, rfl, started, running,
        fun j there => absurd there (nextSlot_serves i j)⟩
    · intro j opened healthy
      by_cases same : j = i
      · subst same
        apply own_undisturbed aside (.inl leases)
        · intro _
          right
          right
          exact ⟨here, hungUp, (safe.fresh started running j reported opened).symm⟩
        · intro _
          right
          exact closeClient_same _ _
      · exact aside_undisturbed aside (.inl leases) j same healthy
  · exact advances_orderly (entered_advances s input) started running rfl rfl
      fun j there => absurd there (nextSlot_serves i j)

theorem flushIfDue_advances (w : Worker) (now : Nat)
    (counted : w.journal.outputs.length = w.journal.sequence) : Advances w (flushIfDue w now) := by
  unfold flushIfDue
  split
  · exact flushOutput_advances w counted
  · exact still_advances rfl rfl rfl

theorem checkpointIfDue_advances (w : Worker) (now : Nat)
    (counted : w.journal.outputs.length = w.journal.sequence) : Advances w (checkpointIfDue w now) := by
  have flushed := flushOutput_advances w counted
  simp only [checkpointIfDue]
  split
  · split
    · exact flushed.trans (saveCheckpoint_advances _)
    · exact flushed
  · exact still_advances rfl rfl rfl

theorem due_orderly (safe : Safe s) (here : s.phase = .due) :
    Orderly s input (s.dueStep (s.entered input)) := by
  have before := safe.entered input
  have tracks : Tracks (s.entered input).monotonicMilliseconds.journal.pending.bytes s.read
      (s.entered input).monotonicMilliseconds := ⟨before.sound, before.known, before.all⟩
  have read : Advances s.worker (s.entered input).monotonicMilliseconds := still_advances rfl rfl rfl
  have flushed := flushIfDue_tracks (s.entered input).monotonicMilliseconds.nowMs tracks
  have first := flushIfDue_advances _ (s.entered input).monotonicMilliseconds.nowMs tracks.sound.counted
  have second := checkpointIfDue_advances _ (s.entered input).monotonicMilliseconds.nowMs
    flushed.sound.counted
  refine advances_orderly (read.trans (first.trans second)) ?_ ?_ rfl rfl ?_
  · rw [here]; exact Phase.noConfusion
  · rw [here]; exact Phase.noConfusion
  · exact fun i there => Phase.noConfusion there

theorem poll_safe (safe : Safe s) (here : s.phase = .poll)
    (moved : step s input = some t) (polled : t = s.pollStep (s.entered input) input) : Safe t := by
  have exactly := step_exact s input t safe.exactly moved
  have agree := step_agree s input t safe.agree moved
  subst polled
  refine ⟨?_, exactly, agree, ?_, ?_⟩
  · unfold pollStep
    split <;> exact safe.misuse
  · unfold pollStep
    split
    · exact fun started => absurd here started
    · exact fun _ _ _ _ _ => rfl
  · unfold pollStep
    split
    · rw [here]
      exact fun i there => Phase.noConfusion there
    · exact fun i there => Phase.noConfusion there

theorem poll_undisturbed (s : Loop) (input : Input) (i : Slot) (healthy : (s.worker.clients i).healthy) :
    Undisturbed s input (s.pollStep (s.entered input) input) i := by
  unfold pollStep
  split <;> exact advances_undisturbed (entered_advances s input) i healthy

theorem broadcastExit_misuse (w : Worker) (code : Nat) : (w.broadcastExit code).misuse = w.misuse := by
  apply foldl_keeps (P := fun v => v.misuse = w.misuse)
  · intro v i before
    split
    · rename_i wanted
      simp only [Bool.and_eq_true] at wanted
      exact (sendOrClose_tail v i _ wanted.1).aside.misuse.trans before
    · exact before
  · rfl

theorem closeAll (w : Worker) : (slots.foldl closeClient w).misuse = w.misuse ∧
    ∀ i, (slots.foldl closeClient w).clients i = {} := by
  have each : ∀ (v : Worker) (i : Slot),
      SlotStep (fun _ after => after = {}) i v (v.closeClient i) := by
    intro v i
    exact ⟨closeClient_quiet v i, fun j apart => closeClient_other v apart, closeClient_same v i⟩
  obtain ⟨quiet, empty⟩ := foldl_all_slots each w
  exact ⟨quiet.misuse, empty⟩

theorem finish_advances (safe : Safe s) (input : Input) :
    Advances s.worker (s.entered input).flushOutput.saveCheckpoint :=
  ((entered_advances s input).trans
    (flushOutput_advances (s.entered input) safe.exactly.tracks.sound.counted)).trans
      (saveCheckpoint_advances _)

theorem finish_safe (safe : Safe s) (moved : step s input = some t)
    (finished : t = s.finishStep (s.entered input) input.exitCode) : Safe t := by
  have exactly := step_exact s input t safe.exactly moved
  have agree := step_agree s input t safe.agree moved
  have misuse := (finish_advances safe input).misuse.trans safe.misuse
  subst finished
  refine ⟨?_, exactly, agree, ?_, ?_⟩
  · simp only [finishStep]
    generalize (s.entered input).flushOutput.saveCheckpoint = w at misuse ⊢
    split
    · exact misuse
    · exact ((closeAll _).1.trans (broadcastExit_misuse w.outcome.2 _)).trans misuse
  · simp only [finishStep]
    split <;> exact fun _ running => absurd rfl running
  · simp only [finishStep]
    split <;> exact fun i there => Phase.noConfusion there

theorem finish_undisturbed (safe : Safe s) (here : s.phase = .finish)
    (i : Slot) (healthy : (s.worker.clients i).healthy) :
    Undisturbed s input (s.finishStep (s.entered input) input.exitCode) i := by
  have advances := finish_advances safe input
  simp only [finishStep]
  generalize (s.entered input).flushOutput.saveCheckpoint = w at advances ⊢
  split
  · exact advances_undisturbed advances i healthy
  · have closed := (closeAll (w.outcome.2.broadcastExit input.exitCode)).2 i
    have ended := congrArg (fun client => client.fd.isSome) closed
    constructor
    · right
      exact ⟨congrArg Client.fd closed, .inr (.inl here)⟩
    · intro opened
      exact absurd (ended.symm.trans opened) Bool.false_ne_true
    · intro opened
      exact absurd (ended.symm.trans opened) Bool.false_ne_true

theorem inside_orderly (safe : Safe s)
    (ok : s.orderly input = true) (outside : s.phase ≠ .poll ∧ s.phase ≠ .finish)
    (moved : s.phaseStep (s.entered input) input = some t) : Orderly s input t := by
  unfold phaseStep at moved
  split at moved
  · exact absurd ‹_› outside.1
  · rename_i here
    rw [← Option.some.inj moved]
    apply refresh_orderly safe outside.1
    · rw [here]; exact Phase.noConfusion
    · exact fun i there => Phase.noConfusion there
  · rename_i here
    exact accept_orderly here ok moved
  · rename_i here
    rw [← Option.some.inj moved]
    exact pty_orderly safe here
  · rename_i here
    rw [← Option.some.inj moved]
    have drained := drainPty_advances input.reads (s.entered input) (safe.entered input)
    exact advances_orderly ((entered_advances s input).trans drained) outside.1
      (by rw [here]; exact Phase.noConfusion) rfl rfl fun i there => Phase.noConfusion there
  · rename_i here
    rw [← Option.some.inj moved]
    exact flushing_orderly safe here ok
  · rename_i here
    rw [← Option.some.inj moved]
    exact serving_orderly safe here ok
  · rename_i here
    rw [← Option.some.inj moved]
    exact hangup_orderly safe here
  · rename_i here
    rw [← Option.some.inj moved]
    apply refresh_orderly safe outside.1
    · rw [here]; exact Phase.noConfusion
    · exact fun i there => Phase.noConfusion there
  · rename_i here
    rw [← Option.some.inj moved]
    exact due_orderly safe here
  · exact absurd ‹_› outside.2
  · exact absurd moved (by simp)

theorem step_orderly (s : Loop) (input : Input) (t : Loop) (safe : Safe s)
    (ok : s.orderly input = true) (moved : step s input = some t) :
    Safe t ∧ ∀ i, (s.worker.clients i).fd.isSome = true → (s.worker.clients i).healthy →
      Undisturbed s input t i := by
  have exactly := step_exact s input t safe.exactly moved
  have agree := step_agree s input t safe.agree moved
  have phases := (phaseStep_of_step moved).2
  by_cases polling : s.phase = .poll
  · have taken : t = s.pollStep (s.entered input) input := by
      unfold phaseStep at phases
      rw [polling] at phases
      exact (Option.some.inj phases).symm
    refine ⟨poll_safe safe polling moved taken, fun i _ healthy => ?_⟩
    rw [taken]
    exact poll_undisturbed s input i healthy
  by_cases finishing : s.phase = .finish
  · have taken : t = s.finishStep (s.entered input) input.exitCode := by
      unfold phaseStep at phases
      rw [finishing] at phases
      exact (Option.some.inj phases).symm
    refine ⟨finish_safe safe moved taken, fun i _ healthy => ?_⟩
    rw [taken]
    exact finish_undisturbed safe finishing i healthy
  · have orderly := inside_orderly safe ok ⟨polling, finishing⟩ phases
    exact ⟨orderly.continues.safe safe exactly agree, orderly.undisturbed⟩

theorem start_safe (columns rows checkpointBytes : Nat) (positive : 0 < columns ∧ 0 < rows)
    (paint : List VtCommand → Bytes) : Safe (start columns rows checkpointBytes positive paint) where
  misuse := rfl
  exactly := start_exact columns rows checkpointBytes positive paint
  agree := start_agree columns rows checkpointBytes positive paint
  fresh := fun started => absurd rfl started
  serving := fun _ there => Phase.noConfusion there

/-- In a run whose steps are orderly no closed slot and no old poll result is used,
and no step disturbs a client whose own writes all succeed. -/
theorem teardown_safe (columns rows checkpointBytes : Nat) (positive : 0 < columns ∧ 0 < rows)
    (paint : List VtCommand → Bytes) (inputs : List Input) (s : Loop)
    (kept : Run.Meets step (fun s input => s.orderly input = true)
      (start columns rows checkpointBytes positive paint) inputs)
    (ran : exec (start columns rows checkpointBytes positive paint) inputs = some s) :
    s.worker.misuse = [] ∧
    ∀ input t, s.orderly input = true → step s input = some t → ∀ i,
      (s.worker.clients i).fd.isSome = true → (s.worker.clients i).healthy →
        Undisturbed s input t i := by
  have safe : Safe s := Run.exec_guarded
    (fun s input t safe ok moved => (step_orderly s input t safe ok moved).1) inputs
    (start_safe columns rows checkpointBytes positive paint) kept ran
  exact ⟨safe.misuse, fun input t ok moved => (step_orderly s input t safe ok moved).2⟩

/-- A viewer whose connection takes the end of the history and nothing after it. -/
def refusing : List Input :=
  accepting { fd := 7, accepts := fun n => decide (n < 1) } ++ serving (attachFrame 0 0 0 0 9)

/-- The output is published at the end of an iteration in which the viewer does nothing. -/
theorem refusing_safe :
    ∃ s, exec (start 80 24 0 (by decide) fun _ => []) (refusing ++ reading [0x61]) = some s ∧
      (s.worker.clients ⟨0, by decide⟩).fd = none ∧ s.worker.misuse = [] := by
  have runs : ((exec (start 80 24 0 (by decide) fun _ => []) (refusing ++ reading [0x61])).any fun s =>
      decide ((s.worker.clients ⟨0, by decide⟩).fd = none)) = true := by decide +kernel
  obtain ⟨s, ran, closed⟩ := (Option.any_eq_true _ _).mp runs
  exact ⟨s, ran, of_decide_eq_true closed,
    (teardown_safe 80 24 0 (by decide) (fun _ => []) _ s (by decide +kernel) ran).1⟩

/-- Output and a frame of the viewer arrive together: the flush closes the slot
that is then served. -/
def flushedAway : List Input :=
  refusing ++ [{ polled := some {
      pty := { readable := true }, clients := fun i => { readable := decide (i.val = 0) } } },
    quiet, quiet, { reads := [[0x61]] }, quiet, { frame := some ⟨.heartbeat, []⟩ }]

/-- The attaching client gets a lease and refuses the frame that tells it so. -/
def leaseRefused : List Input :=
  accepting { fd := 7, accepts := fun _ => false } ++
    (serving (attachFrame 1 0 0 0 9)).take 6

/-- A writer refuses the frame about its expired lease, and a new connection takes
its slot before the frame it was polled for is read. -/
def slotReused : List Input :=
  accepting { fd := 7, accepts := fun n => decide (n < 2) } ++ (serving (attachFrame 1 0 0 0 9) ++
    [{ polled := some {
        listener := true, clients := fun i => { readable := decide (i.val = 0) } } },
      { env := { ticks := [30000] } }, { accepted := some { fd := 7 } }, quiet, quiet])

theorem teardown_misuses :
    ((exec (start 80 24 0 (by decide) fun _ => []) flushedAway).map fun s =>
      (s.worker.misuse, s.worker.crashed)) = some ([.asserted ⟨0, by decide⟩], true) ∧
    ((exec (start 80 24 0 (by decide) fun _ => []) leaseRefused).map fun s =>
      (s.worker.misuse, s.worker.crashed)) = some ([.asserted ⟨0, by decide⟩], true) ∧
    ((exec (start 80 24 0 (by decide) fun _ => []) slotReused).map fun s =>
      (s.worker.misuse, s.worker.crashed)) = some ([.stalePoll ⟨0, by decide⟩], false) := by
  refine ⟨?_, ?_, ?_⟩ <;> decide +kernel

end Machinen.Session.Loop

