import Machinen.Session.Resume

/-! What a handler leaves of the clients it does not serve: their connections,
their marks and their place in the output. Only a client's own writes, an expired
heartbeat or a transfer can take any of these from it. -/
namespace Machinen.Session.Worker

open LeaseTable

/-- A slot that is still open has the marks and the heartbeat it had. -/
def Marked (before after : Client) : Prop :=
  after.fd.isSome = true → after.fd = before.fd ∧ after.granted = before.granted ∧
    after.lastHeartbeatMs = before.lastHeartbeatMs

theorem Marked.refl (client : Client) : Marked client client := fun _ => ⟨rfl, rfl, rfl⟩

theorem Marked.trans {a b c : Client} (first : Marked a b) (second : Marked b c) : Marked a c := by
  intro opened
  obtain ⟨fd, granted, beat⟩ := second opened
  obtain ⟨fd', granted', beat'⟩ := first (fd ▸ opened)
  exact ⟨fd.trans fd', granted.trans granted', beat.trans beat'⟩

theorem marked_empty (client : Client) : Marked client {} :=
  fun impossible => absurd impossible Bool.false_ne_true

/-- A handler with no turn of the leases: the time and the marks are as before. -/
structure Restful (w w' : Worker) : Prop where
  nowMs : w'.nowMs = w.nowMs
  marked : ∀ i, Marked (w.clients i) (w'.clients i)

theorem Restful.refl (w : Worker) : Restful w w := ⟨rfl, fun _ => Marked.refl _⟩

variable {a b c w w' : Worker} {i : Slot}

theorem Restful.trans (first : Restful a b) (second : Restful b c) :
    Restful a c :=
  ⟨second.nowMs.trans first.nowMs, fun i => (first.marked i).trans (second.marked i)⟩

theorem closeClient_restful (w : Worker) (i : Slot) : Restful w (w.closeClient i) where
  nowMs := rfl
  marked := by
    intro j
    by_cases here : j = i
    · subst here
      rw [closeClient_same]
      exact marked_empty _
    · rw [closeClient_other w here]
      exact Marked.refl _

theorem setClient_restful (w : Worker) (i : Slot) (client : Client)
    (marked : Marked (w.clients i) client) : Restful w (w.setClient i client) where
  nowMs := rfl
  marked := by
    intro j
    by_cases here : j = i
    · subst here
      rwa [setClient_same]
    · rw [setClient_other w here]
      exact Marked.refl _

theorem writeFrame_restful (w : Worker) (i : Slot) (frame : Frame) :
    Restful w (w.writeFrame i frame).2 := by
  simp only [writeFrame]
  split
  · exact Restful.refl w
  split
  · exact ⟨rfl, fun _ => Marked.refl _⟩
  split
  · exact setClient_restful w i _ fun _ => ⟨rfl, rfl, rfl⟩
  · exact Restful.refl w

theorem writeFrames_restful (w : Worker) (i : Slot) (frames : List Frame) :
    Restful w (w.writeFrames i frames).2 := by
  induction frames generalizing w with
  | nil => exact Restful.refl w
  | cons frame rest ih =>
    have first := writeFrame_restful w i frame
    simp only [writeFrames]
    split
    · rename_i next written
      rw [written] at first
      exact first.trans (ih next)
    · rename_i next written
      rwa [written] at first

theorem sendOrClose_restful (w : Worker) (i : Slot) (frames : List Frame) :
    Restful w (w.sendOrClose i frames) := by
  have written := writeFrames_restful w i frames
  simp only [sendOrClose]
  split
  · rename_i next sent
    rwa [sent] at written
  · rename_i next refused
    rw [refused] at written
    exact written.trans (closeClient_restful next i)

theorem foldl_restful {turn : Worker → Slot → Worker} (each : ∀ w i, Restful w (turn w i))
    (turns : List Slot) (w : Worker) : Restful w (turns.foldl turn w) :=
  foldl_keeps (P := Restful w) (fun v i before => before.trans (each v i)) turns (Restful.refl w)

theorem broadcastGeometry_restful (w : Worker) : Restful w w.broadcastGeometry := by
  apply foldl_restful
  intro v i
  unfold broadcastGeometrySlot
  split
  · exact sendOrClose_restful v i _
  · exact Restful.refl v

theorem broadcastOutput_restful (w : Worker) (sequence : Nat) (payload : Bytes) :
    Restful w (w.broadcastOutput sequence payload) := by
  apply foldl_restful
  intro v i
  split
  · exact sendOrClose_restful v i _
  · exact Restful.refl v

theorem refreshSlot_other (w : Worker) {j : Slot} (apart : j ≠ i) (flag : LeaseFlag)
    (base : Table.Base w.table) (named : (w.leases flag).fd = (w.clients j).fd)
    (opened : (w.clients j).fd.isSome = true) : (w.refreshSlot i).leases flag = w.leases flag := by
  have turn : (w.table.regrant leaseDurationMs w.nowMs [.writer, .resize] i).leases flag =
      w.table.leases flag := Table.regrant_leases _ base apart named opened
  have base' : Table.Base (w.table.regrant leaseDurationMs w.nowMs [.writer, .resize] i) :=
    Table.regrant_base _ base i
  have same : (w.regrant i).clients j = w.clients j := (regrant_step w i).other j apart
  rw [← regrant_table] at turn base'
  have kept : (w.regrant i).leases flag = w.leases flag := turn
  simp only [refreshSlot]
  split
  · rcases sendOrClose_table (w.regrant i) i
      [leaseFrame ((w.regrant i).clients i).granted ((w.regrant i).clients i).requested]
      with sent | closed
    · exact (congrFun (congrArg Table.leases sent) flag).trans kept
    · have held := Table.close_leases base' apart (f := flag)
        (by rw [show (w.regrant i).table.leases flag = w.leases flag from kept]
            change _ = ((w.regrant i).clients j).fd
            rw [same]; exact named)
        (by change ((w.regrant i).clients j).fd.isSome = true
            rw [same]; exact opened)
      exact ((congrFun (congrArg Table.leases closed) flag).trans held).trans kept
  · exact kept

theorem refreshSlot_base (w : Worker) (i : Slot) (base : Table.Base w.table) :
    Table.Base (w.refreshSlot i).table := by
  have refreshed : Table.Refreshed leaseDurationMs (fun _ => False) w.table := base.refreshed
  exact (refreshSlot_refreshed w i refreshed).toBase

theorem regrant_nowMs (w : Worker) (i : Slot) : (w.regrant i).nowMs = w.nowMs := by
  simp only [regrant, grant_nowMs]
  rfl

theorem refreshSlot_nowMs (w : Worker) (i : Slot) : (w.refreshSlot i).nowMs = w.nowMs := by
  simp only [refreshSlot]
  split
  · exact (sendOrClose_restful (w.regrant i) i _).nowMs.trans (regrant_nowMs w i)
  · exact regrant_nowMs w i

theorem refreshLeases_nowMs (w : Worker) : w.refreshLeases.nowMs = w.monotonicMilliseconds.nowMs := by
  rw [refreshLeases]
  have same := foldl_keeps (P := fun v => v.nowMs = w.monotonicMilliseconds.nowMs)
    (fun v i before => (refreshSlot_nowMs v i).trans before) slots
    (w := w.monotonicMilliseconds.expireLeases) rfl
  exact same

/-- What a client and its lease see of the turns of others. -/
structure Standing (w v : Worker) (i : Slot) (flag : LeaseFlag) : Prop where
  client : v.clients i = w.clients i
  lease : v.leases flag = w.leases flag
  base : Table.Base v.table
  nowMs : v.nowMs = w.nowMs

theorem turns_standing (turns : List Slot) (apart : i ∉ turns) (flag : LeaseFlag)
    (w : Worker) (base : Table.Base w.table) (named : (w.leases flag).fd = (w.clients i).fd)
    (opened : (w.clients i).fd.isSome = true) : Standing w (turns.foldl refreshSlot w) i flag := by
  induction turns generalizing w with
  | nil => exact ⟨rfl, rfl, base, rfl⟩
  | cons j rest ih =>
    obtain ⟨elsewhere, later⟩ : i ≠ j ∧ i ∉ rest := by simpa only [List.mem_cons, not_or] using apart
    have client : (w.refreshSlot j).clients i = w.clients i := (refreshSlot_step w j).other i elsewhere
    have lease := refreshSlot_other w elsewhere flag base named opened
    have rest' := ih later (w.refreshSlot j) (refreshSlot_base w j base)
      (by rw [lease, client]; exact named) (by rw [client]; exact opened)
    exact ⟨rest'.client.trans client, rest'.lease.trans lease, rest'.base,
      rest'.nowMs.trans (refreshSlot_nowMs w j)⟩

theorem refreshSlot_marks (w : Worker) (i : Slot) (flag : LeaseFlag)
    (may : Table.grantable leaseDurationMs w.nowMs w.table i flag)
    (opened : ((w.refreshSlot i).clients i).fd.isSome = true) :
    ((w.refreshSlot i).clients i).granted flag = true := by
  have marked : ((w.table.regrant leaseDurationMs w.nowMs [.writer, .resize] i).holders i).granted
      flag = true := Table.regrant_marks (by cases flag <;> simp) may
  rw [← regrant_table] at marked
  have own : ((w.regrant i).clients i).granted flag = true := marked
  revert opened
  simp only [refreshSlot]
  split
  · intro opened
    rw [((sendOrClose_restful (w.regrant i) i _).marked i opened).2.1]
    exact own
  · exact fun _ => own

theorem refreshLeases_keeps (w : Worker) (i : Slot) (flag : LeaseFlag) (base : Table.Base w.table)
    (viewer : (w.clients i).viewer = true) (requested : (w.clients i).requested flag = true)
    (named : (w.leases flag).fd = (w.clients i).fd)
    (unexpired : w.monotonicMilliseconds.nowMs < (w.leases flag).expiresMs)
    (recent : w.monotonicMilliseconds.nowMs < (w.clients i).lastHeartbeatMs + leaseDurationMs)
    (opened : (w.refreshLeases.clients i).fd.isSome = true) :
    (w.refreshLeases.clients i).granted flag = true := by
  have present := Client.viewer_open viewer
  have held : w.monotonicMilliseconds.expireLeases.leases flag = w.leases flag := by
    change (if (w.leases flag).fd.isSome ∧ (w.leases flag).expiresMs ≤
      w.monotonicMilliseconds.nowMs then _ else w.leases flag) = w.leases flag
    rw [if_neg fun expired => absurd expired.2 (Nat.not_le.mpr unexpired)]
  have base' : Table.Base w.monotonicMilliseconds.expireLeases.table :=
    Table.expire_base (t := w.monotonicMilliseconds.table) base _
  obtain ⟨before, after, split⟩ := List.append_of_mem (mem_slots i)
  have once : (before ++ i :: after).Nodup := split ▸ slots_nodup
  have outside : i ∉ before ∧ i ∉ after := by
    rw [List.nodup_append] at once
    refine ⟨fun listed => once.2.2 i listed i List.mem_cons_self rfl, ?_⟩
    exact (List.nodup_cons.mp once.2.1).1
  have first := turns_standing before outside.1 flag w.monotonicMilliseconds.expireLeases base'
    (by rw [held]; exact named) present
  revert opened
  rw [refreshLeases, split, List.foldl_append, List.foldl_cons]
  generalize before.foldl refreshSlot w.monotonicMilliseconds.expireLeases = v at first
  have may : Table.grantable leaseDurationMs v.nowMs v.table i flag := by
    have client : v.clients i = w.clients i := first.client
    have lease : v.leases flag = w.leases flag := first.lease.trans held
    have now : v.nowMs = w.monotonicMilliseconds.nowMs := first.nowMs
    have positive : 0 < leaseDurationMs := by decide
    simp only [Table.grantable, table, Client.holder, client, lease, now]
    exact ⟨viewer, by omega, requested, .inr named⟩
  have marks := refreshSlot_marks v i flag may
  have rest := (foldl_slots refreshSlot_step (List.nodup_cons.mp (List.nodup_append.mp once).2.1).2
    (v.refreshSlot i)).2.2 i outside.2
  rw [rest]
  exact marks

/-- The heartbeat that the lease of a slot depends on is too old. -/
def Expired (before after : Client) (now : Nat) : Prop :=
  before.lastHeartbeatMs + leaseDurationMs ≤ now ∨ after.lastHeartbeatMs + leaseDurationMs ≤ now

/-- A mark is kept while its client is open and its heartbeat recent. -/
def KeepsLeases (w w' : Worker) : Prop :=
  ∀ i flag, (w.clients i).granted flag = true → (w'.clients i).fd.isSome = true →
    (w'.clients i).granted flag = true ∨ Expired (w.clients i) (w'.clients i) w'.nowMs

theorem Restful.keepsLeases (restful : Restful w w') : KeepsLeases w w' := by
  intro i flag marked opened
  left
  rw [(restful.marked i opened).2.1]
  exact marked

theorem KeepsLeases.then (first : KeepsLeases a b) (second : Restful b c) :
    KeepsLeases a c := by
  intro i flag marked opened
  obtain ⟨fd, granted, beat⟩ := second.marked i opened
  rcases first i flag marked (fd ▸ opened) with kept | expired
  · left
    rwa [granted]
  · right
    unfold Expired at expired ⊢
    rwa [beat, second.nowMs]

theorem heartbeat_clients (w : Worker) (i j : Slot) :
    ((w.heartbeat i).clients j).fd = (w.clients j).fd ∧
      ((w.heartbeat i).clients j).viewer = (w.clients j).viewer ∧
      ((w.heartbeat i).clients j).requested = (w.clients j).requested := by
  unfold heartbeat
  by_cases here : j = i
  · subst here
    simp only [setClient_same]
    exact ⟨rfl, rfl, rfl⟩
  · rw [setClient_other _ here]
    exact ⟨rfl, rfl, rfl⟩

theorem refreshLeases_beat (w : Worker) (i : Slot) (opened : (w.refreshLeases.clients i).fd.isSome = true) :
    (w.refreshLeases.clients i).lastHeartbeatMs = (w.clients i).lastHeartbeatMs := by
  have each : ∀ (v : Worker) (j : Slot), SlotStep (fun a b => b.fd.isSome = true →
      b.fd = a.fd ∧ b.lastHeartbeatMs = a.lastHeartbeatMs) j v (v.refreshSlot j) := by
    intro v j
    have turn := refreshSlot_step v j
    refine ⟨turn.toQuiet, turn.other, ?_⟩
    obtain ⟨marks, remarked, -⟩ := (regrant_step v j).own
    simp only [refreshSlot]
    split
    · intro opened
      obtain ⟨fd, -, beat⟩ := (sendOrClose_restful (v.regrant j) j _).marked j opened
      rw [fd, beat, remarked]
      exact ⟨rfl, rfl⟩
    · intro _
      rw [remarked]
      exact ⟨rfl, rfl⟩
  have all := (foldl_all_slots each w.monotonicMilliseconds.expireLeases).2 i
  rw [refreshLeases] at opened ⊢
  exact (all opened).2

theorem refresh_keepsLeases {v : Worker} (agree : w.Agree) (base : Table.Base v.table)
    (leases : v.leases = w.leases)
    (clients : ∀ j flag, (w.clients j).granted flag = true → (v.clients j).fd = (w.clients j).fd ∧
      (v.clients j).viewer = (w.clients j).viewer ∧
      (v.clients j).requested = (w.clients j).requested) :
    KeepsLeases w v.refreshLeases := by
  intro i flag marked opened
  obtain ⟨eligible, named, requested, expires⟩ := agree.sound i flag marked
  have named' : (w.leases flag).fd = (w.clients i).fd := named
  have requested' : (w.clients i).requested flag = true := requested
  have expires' : (w.leases flag).expiresMs = (w.clients i).lastHeartbeatMs + leaseDurationMs := expires
  obtain ⟨fd, viewer, wanted⟩ := clients i flag marked
  by_cases old : v.monotonicMilliseconds.nowMs < (w.clients i).lastHeartbeatMs + leaseDurationMs
  · by_cases new : v.monotonicMilliseconds.nowMs < (v.clients i).lastHeartbeatMs + leaseDurationMs
    · left
      apply refreshLeases_keeps v i flag base (viewer ▸ eligible) (by rw [wanted]; exact requested')
        (by rw [leases, fd]; exact named') (by rw [leases, expires']; exact old) new opened
    · right
      right
      rw [refreshLeases_beat v i opened, refreshLeases_nowMs]
      exact Nat.le_of_not_lt new
  · right
    left
    rw [refreshLeases_nowMs]
    exact Nat.le_of_not_lt old

theorem refreshLeases_keepsLeases (w : Worker) (agree : w.Agree) : KeepsLeases w w.refreshLeases :=
  refresh_keepsLeases agree agree.toBase rfl fun _ _ _ => ⟨rfl, rfl, rfl⟩

theorem beat_keepsLeases (w : Worker) (i : Slot) (agree : w.Agree) :
    KeepsLeases w (w.heartbeat i).refreshLeases :=
  refresh_keepsLeases agree (heartbeat_base w i agree.toBase) rfl
    fun j _ _ => heartbeat_clients w i j

/-- A handler on behalf of slot `i`: the other clients go on, or are lost to
their own writes, and no slot is misused. -/
structure Aside (i : Slot) (w w' : Worker) : Prop where
  outputs : w'.journal.outputs = w.journal.outputs
  misuse : w'.misuse = w.misuse
  other : ∀ j, j ≠ i → Follows [] (w.clients j) (w'.clients j)
  own : (w'.clients i).fd.isSome = true →
    (w'.clients i).fd = (w.clients i).fd ∧ (w'.clients i).link.conn = (w.clients i).link.conn

theorem Aside.refl (i : Slot) (w : Worker) : Aside i w w :=
  ⟨rfl, rfl, fun _ _ => Follows.refl _, fun _ => ⟨rfl, rfl⟩⟩

theorem Aside.trans (first : Aside i a b) (second : Aside i b c) :
    Aside i a c where
  outputs := second.outputs.trans first.outputs
  misuse := second.misuse.trans first.misuse
  other := fun j apart => (first.other j apart).trans (second.other j apart)
  own := by
    intro opened
    obtain ⟨fd, conn⟩ := second.own opened
    obtain ⟨fd', conn'⟩ := first.own (fd ▸ opened)
    exact ⟨fd.trans fd', conn.trans conn'⟩

theorem Carries.aside (carries : Carries [] w w') (i : Slot) : Aside i w w' where
  outputs := by rw [carries.journal]
  misuse := carries.misuse
  other := fun j _ => carries.slot j
  own := by
    intro opened
    have kept := (carries.slot i).openSlot opened
    exact ⟨kept.fd, kept.conn⟩

/-- A handler that serves slot `i` and has no turn of the leases. -/
structure Tail (i : Slot) (w w' : Worker) : Prop where
  aside : Aside i w w'
  restful : Restful w w'

theorem Tail.refl (i : Slot) (w : Worker) : Tail i w w := ⟨Aside.refl i w, Restful.refl w⟩

theorem Tail.trans (first : Tail i a b) (second : Tail i b c) :
    Tail i a c := ⟨first.aside.trans second.aside, first.restful.trans second.restful⟩

theorem closeClient_tail (w : Worker) (i : Slot) : Tail i w (w.closeClient i) where
  aside := by
    refine ⟨rfl, rfl, fun j apart => ?_, fun opened => ?_⟩
    · rw [closeClient_other w apart]
      exact Follows.refl _
    · rw [closeClient_same] at opened
      exact absurd opened Bool.false_ne_true
  restful := closeClient_restful w i

theorem setClient_tail (w : Worker) (i : Slot) (client : Client)
    (fd : client.fd = (w.clients i).fd) (conn : client.link.conn = (w.clients i).link.conn)
    (granted : client.granted = (w.clients i).granted)
    (beat : client.lastHeartbeatMs = (w.clients i).lastHeartbeatMs) :
    Tail i w (w.setClient i client) where
  aside := by
    refine ⟨rfl, rfl, fun j apart => ?_, fun _ => ?_⟩
    · rw [setClient_other w apart]
      exact Follows.refl _
    · rw [setClient_same]
      exact ⟨fd, conn⟩
  restful := setClient_restful w i client fun _ => ⟨fd, granted, beat⟩

theorem deliverAll_tail (w : Worker) (i : Slot) (frames : List Frame) :
    Tail i w (w.deliverAll i frames) := setClient_tail w i _ rfl rfl rfl rfl

theorem sendOrClose_tail (w : Worker) (i : Slot) (frame : Frame)
    (opened : (w.clients i).fd.isSome = true) : Tail i w (w.sendOrClose i [frame]) := by
  by_cases fits : frame.payload.length ≤ maxFramePayload
  · rcases sendOrClose_eq w i [frame] opened (by simpa using fits) with ⟨-, sent⟩ | ⟨-, closed⟩
    · rw [sent]
      exact deliverAll_tail w i [frame]
    · rw [closed]
      exact closeClient_tail w i
  · have failed : w.writeFrame i frame = (false, w) := by
      simp only [writeFrame, if_pos (Nat.lt_of_not_le fits)]
    simp only [sendOrClose, writeFrames, failed]
    exact closeClient_tail w i

theorem broadcastGeometry_tail (w : Worker) (i : Slot) : Tail i w w.broadcastGeometry :=
  ⟨(broadcastGeometry_carries w).aside i, broadcastGeometry_restful w⟩

theorem still_tail (i : Slot) (clients : w'.clients = w.clients)
    (outputs : w'.journal.outputs = w.journal.outputs) (misuse : w'.misuse = w.misuse)
    (nowMs : w'.nowMs = w.nowMs) : Tail i w w' where
  aside := ⟨outputs, misuse, fun j _ => by rw [clients]; exact Follows.refl _,
    fun _ => by rw [clients]; exact ⟨rfl, rfl⟩⟩
  restful := ⟨nowMs, fun j => by rw [clients]; exact Marked.refl _⟩

theorem writePty_tail (w : Worker) (i : Slot) (payload : Bytes) : Tail i w (w.writePty payload).2 := by
  unfold writePty
  split
  · exact Tail.refl i w
  · exact still_tail i rfl rfl rfl rfl

theorem applyWindow_tail (w : Worker) (i : Slot) (columns rows : Nat)
    (positive : 0 < columns ∧ 0 < rows) : Tail i w (w.applyWindow i columns rows positive) := by
  have noted : Tail i w (w.note (.window columns rows)).outcome.2 := still_tail i rfl rfl rfl rfl
  simp only [applyWindow]
  split
  · exact noted.trans (closeClient_tail _ i)
  · rename_i builder _
    have shaped : Tail i ((w.note (.window columns rows)).outcome.2.setBuilder builder)
        (((w.note (.window columns rows)).outcome.2.setBuilder builder).resizeGeometry columns rows
          positive) := by
      unfold resizeGeometry
      split
      · exact still_tail i rfl rfl rfl rfl
      · exact Tail.refl i _
    have built : Tail i (w.note (.window columns rows)).outcome.2
        ((w.note (.window columns rows)).outcome.2.setBuilder builder) := still_tail i rfl rfl rfl rfl
    exact ((noted.trans built).trans shaped).trans (broadcastGeometry_tail _ i)

/-- A handler that serves slot `i`: the leases of all are kept. -/
structure Gentle (i : Slot) (w w' : Worker) : Prop where
  aside : Aside i w w'
  leases : KeepsLeases w w'

theorem Tail.gentle (tail : Tail i w w') : Gentle i w w' :=
  ⟨tail.aside, tail.restful.keepsLeases⟩

theorem Gentle.then (first : Gentle i a b) (second : Tail i b c) :
    Gentle i a c := ⟨first.aside.trans second.aside, first.leases.then second.restful⟩

theorem beat_gentle (w : Worker) (i : Slot) (agree : w.Agree) :
    Gentle i w (w.heartbeat i).refreshLeases where
  aside := by
    have beating : Aside i w (w.heartbeat i) := by
      unfold heartbeat
      refine ⟨rfl, rfl, fun j apart => ?_, fun _ => ?_⟩
      · rw [setClient_other _ apart]
        exact Follows.refl _
      · rw [setClient_same]
        exact ⟨rfl, rfl⟩
    exact beating.trans ((refreshLeases_carries (w.heartbeat i)).aside i)
  leases := beat_keepsLeases w i agree

theorem serviceInput_gentle (w : Worker) (i : Slot) (payload : Bytes) (agree : w.Agree) :
    Gentle i w (w.serviceInput i payload) := by
  have turn := beat_gentle w i agree
  have written := writePty_tail (w.heartbeat i).refreshLeases i payload
  simp only [serviceInput]
  split
  · exact turn
  · split
    · rename_i next done
      rw [done] at written
      exact turn.then written
    · rename_i next failed
      rw [failed] at written
      exact turn.then (written.trans (closeClient_tail next i))

theorem serviceClientResize_gentle (w : Worker) (i : Slot) (payload : Bytes) (agree : w.Agree) :
    Gentle i w (w.serviceClientResize i payload) := by
  have turn := beat_gentle w i agree
  have closed := turn.then (closeClient_tail (w.heartbeat i).refreshLeases i)
  simp only [serviceClientResize]
  split
  · exact turn
  split
  · exact closed
  split
  · split
    · exact closed
    · exact turn.then (applyWindow_tail _ i _ _ _)
  · exact closed

theorem serviceSignal_tail (w : Worker) (i : Slot) (payload : Bytes)
    (opened : (w.clients i).fd.isSome = true) : Tail i w (w.serviceSignal i payload) := by
  have noted : Tail i w (w.note (.signal (Bytes.ofBe payload))).outcome.2 :=
    still_tail i rfl rfl rfl rfl
  simp only [serviceSignal]
  split
  · exact sendOrClose_tail w i _ opened
  split
  · exact closeClient_tail w i
  split
  · exact closeClient_tail w i
  split
  · rename_i next delivered
    rwa [delivered] at noted
  · rename_i next refused
    rw [refused] at noted
    exact noted.trans (closeClient_tail next i)

theorem applyClientInfo_tail (w : Worker) (i : Slot) (payload : Bytes) :
    Tail i w (w.applyClientInfo i payload).2 := by
  have unchanged := Tail.refl i w
  simp only [applyClientInfo]
  split
  · exact unchanged
  split
  · exact unchanged
  split
  · exact unchanged
  split
  · exact unchanged
  · exact setClient_tail w i _ rfl rfl rfl rfl

theorem sendAttachedClients_tail (w : Worker) (i : Slot) (opened : (w.clients i).fd.isSome = true) :
    Tail i w (w.sendAttachedClients i) := by
  unfold sendAttachedClients
  split
  · exact closeClient_tail w i
  · exact sendOrClose_tail w i _ opened

/-- A refresh has nothing to tell a client that is no viewer and has no marks. -/
theorem refreshSlot_idle (w : Worker) (i : Slot) (other : (w.clients i).viewer = false)
    (unmarked : (w.clients i).granted = fun _ => false) :
    (w.refreshSlot i).clients i = w.clients i := by
  have cleared : w.setGranted i (fun _ => false) = w := by
    unfold setGranted
    rw [← unmarked]
    exact setClient_self w i
  have still : ∀ flag, w.grant i flag = w := by
    intro flag
    simp only [grant, alive, other, Bool.false_and, Bool.false_eq_true, if_false]
  have same : w.regrant i = w := by rw [regrant, cleared, still, still]
  simp [refreshSlot, same]

theorem refreshLeases_idle (w : Worker) (i : Slot) (other : (w.clients i).viewer = false)
    (unmarked : (w.clients i).granted = fun _ => false) : w.refreshLeases.clients i = w.clients i := by
  have each : ∀ (v : Worker) (j : Slot), SlotStep (fun a b => a.viewer = false →
      a.granted = (fun _ => false) → b = a) j v (v.refreshSlot j) := by
    intro v j
    have turn := refreshSlot_step v j
    exact ⟨turn.toQuiet, turn.other, refreshSlot_idle v j⟩
  have all := (foldl_all_slots each w.monotonicMilliseconds.expireLeases).2 i other unmarked
  rw [refreshLeases]
  exact all

theorem unviewed_unmarked (agree : w.Agree)
    (other : (w.clients i).viewer = false) : (w.clients i).granted = fun _ => false := by
  funext flag
  by_contra marked
  have eligible := (agree.sound i flag ((Bool.not_eq_false _).mp marked)).1
  exact Bool.false_ne_true (other.symm.trans eligible)

theorem assignLeases_aside (w : Worker) {target : Slot}
    (viewer : (w.clients target).viewer = true) (other : (w.clients i).viewer = false) :
    Aside i w (w.assignLeases target) ∧ (w.assignLeases target).clients i = w.clients i := by
  have apart : i ≠ target := by
    intro same
    rw [same] at other
    exact Bool.false_ne_true (other.symm.trans viewer)
  have same : ∀ j, j ≠ target → (w.assignLeases target).clients j = w.clients j := by
    intro j elsewhere
    exact setClient_other w.monotonicMilliseconds elsewhere _
  refine ⟨⟨rfl, rfl, fun j _ => ?_, fun _ => by rw [same i apart]; exact ⟨rfl, rfl⟩⟩, same i apart⟩
  by_cases here : j = target
  · subst here
    left
    have opened := Client.viewer_open viewer
    have client : (w.assignLeases j).clients j =
        { w.clients j with lastHeartbeatMs := w.monotonicMilliseconds.nowMs } :=
      setClient_same w.monotonicMilliseconds j _
    rw [client, ite_self]
    exact ⟨rfl, rfl, rfl, rfl, rfl, rfl, rfl, (List.append_nil _).symm,
      fun empty => absurd empty (open_ne opened)⟩
  · rw [same j here]
    exact Follows.refl _

theorem transferControl_aside (w : Worker) (i : Slot) (targetId : Nat) (agree : w.Agree)
    (other : (w.clients i).viewer = false) :
    Aside i w (w.transferControl targetId).2 ∧
      (w.transferControl targetId).2.clients i = w.clients i := by
  simp only [transferControl]
  split
  · exact ⟨Aside.refl i w, rfl⟩
  split
  · exact ⟨Aside.refl i w, rfl⟩
  · rename_i target found
    dsimp only
    obtain ⟨aside, same⟩ := assignLeases_aside w (transferTarget_viewer found) other
    have idle := refreshLeases_idle (w.assignLeases target) i (by rw [same]; exact other)
      (by rw [same]; exact unviewed_unmarked agree other)
    exact ⟨aside.trans ((refreshLeases_carries (w.assignLeases target)).aside i), idle.trans same⟩

theorem serviceTakeControl_aside (w : Worker) (i : Slot) (payload : Bytes) (agree : w.Agree)
    (other : (w.clients i).viewer = false) (opened : (w.clients i).fd.isSome = true) :
    Aside i w (w.serviceTakeControl i payload) := by
  obtain ⟨moved, same⟩ := transferControl_aside w i (Bytes.ofBe payload) agree other
  simp only [serviceTakeControl]
  split
  · rename_i next refused
    rw [refused] at moved same
    exact moved.trans (sendOrClose_tail next i _ (by rw [same]; exact opened)).aside
  · rename_i next done
    rw [done] at moved same
    have sent := sendOrClose_tail next i ⟨.takeControl, payload⟩ (by rw [same]; exact opened)
    exact (moved.trans sent.aside).trans (broadcastGeometry_tail _ i).aside

theorem serviceSessionControlFrame_gentle (w : Worker) (i : Slot) (frame : Frame) (agree : w.Agree)
    (opened : (w.clients i).fd.isSome = true) :
    Aside i w (w.serviceSessionControlFrame i frame) ∧
      (KeepsLeases w (w.serviceSessionControlFrame i frame) ∨
        ((w.clients i).control = true ∧ frame.kind = .takeControl)) := by
  have gentle : ∀ {v : Worker}, Tail i w v → Aside i w v ∧ (KeepsLeases w v ∨
      ((w.clients i).control = true ∧ frame.kind = .takeControl)) :=
    fun tail => ⟨tail.aside, .inl tail.restful.keepsLeases⟩
  have closed := gentle (closeClient_tail w i)
  have named := applyClientInfo_tail w i frame.payload
  simp only [serviceSessionControlFrame]
  split <;> try split
  · exact closed
  · exact gentle (sendOrClose_tail w i _ opened)
  · exact gentle (named.trans (closeClient_tail _ i))
  · exact gentle named
  · exact closed
  · exact gentle (sendAttachedClients_tail w i opened)
  · exact closed
  · rename_i kind allowed
    simp only [Bool.or_eq_true, Bool.not_eq_true', not_or, Bool.not_eq_false] at allowed
    have other : (w.clients i).viewer = false := by
      simp only [Client.viewer, allowed.1, Bool.not_true, Bool.and_false]
    exact ⟨serviceTakeControl_aside w i frame.payload agree other opened, .inr ⟨allowed.1, kind⟩⟩
  · exact closed
  · exact gentle (sendOrClose_tail w i _ opened)
  · exact gentle (Tail.refl i w)

theorem serviceReadyClient_gentle (w : Worker) (i : Slot) (frame : Frame) (agree : w.Agree)
    (opened : (w.clients i).fd.isSome = true) :
    Aside i w (w.serviceReadyClient i frame) ∧
      (KeepsLeases w (w.serviceReadyClient i frame) ∨
        ((w.clients i).control = true ∧ frame.kind = .takeControl)) := by
  have gentle : ∀ {v : Worker}, Gentle i w v → Aside i w v ∧ (KeepsLeases w v ∨
      ((w.clients i).control = true ∧ frame.kind = .takeControl)) :=
    fun gentle => ⟨gentle.aside, .inl gentle.leases⟩
  unfold serviceReadyClient
  split
  · exact gentle (beat_gentle w i agree)
  · exact gentle (serviceInput_gentle w i _ agree)
  · exact gentle (serviceClientResize_gentle w i _ agree)
  · exact gentle (serviceSignal_tail w i _ opened).gentle
  · split
    · exact gentle (closeClient_tail w i).gentle
    · exact gentle (sendOrClose_tail w i _ opened).gentle
  iterate 5 exact serviceSessionControlFrame_gentle w i frame agree opened
  exact gentle (closeClient_tail w i).gentle

/-- The worker at the moment refreshLeases decides about the lease frame of slot `i`. -/
def leaseTurn (w : Worker) (i : Slot) : Worker :=
  ((slots.take i.val).foldl refreshSlot w.monotonicMilliseconds.expireLeases).regrant i

/-- The refresh has no lease frame for slot `i`, or its connection accepts it. -/
def leaseFrameTaken (w : Worker) (i : Slot) : Bool :=
  let client := (w.leaseTurn i).clients i
  client.granted.mask == 0 || client.link.accepts client.link.delivered.length

theorem slots_split (i : Slot) : slots = slots.take i.val ++ i :: slots.drop (i.val + 1) := by
  have inside : i.val < slots.length := by
    rw [slots, List.length_finRange]
    exact i.isLt
  have here : slots[i.val] = i := by simp [slots]
  have cut := List.take_append_drop i.val slots
  rw [List.drop_eq_getElem_cons inside, here] at cut
  exact cut.symm

theorem slots_split_apart (i : Slot) :
    i ∉ slots.take i.val ∧ i ∉ slots.drop (i.val + 1) ∧ (slots.take i.val).Nodup ∧
      (slots.drop (i.val + 1)).Nodup := by
  have once := slots_nodup
  rw [slots_split i, List.nodup_append] at once
  obtain ⟨first, rest, apart⟩ := once
  obtain ⟨alone, last⟩ := List.nodup_cons.mp rest
  exact ⟨fun listed => apart i listed i List.mem_cons_self rfl, alone, first, last⟩

theorem refreshSlot_opened (w : Worker) (i : Slot) (opened : (w.clients i).fd.isSome = true)
    (unmarked : (w.clients i).granted = fun _ => false)
    (taken : (((w.regrant i).clients i).granted.mask == 0 ||
      ((w.regrant i).clients i).link.accepts ((w.regrant i).clients i).link.delivered.length) = true) :
    ((w.refreshSlot i).clients i).fd.isSome = true := by
  have present : ((w.regrant i).clients i).fd.isSome = true := by
    obtain ⟨marks, remarked, -⟩ := (regrant_step w i).own
    rw [remarked]
    exact opened
  simp only [refreshSlot]
  split
  · rename_i changed
    have zero : (w.clients i).granted.mask = 0 := by
      rw [unmarked]
      rfl
    have accepts : ((w.regrant i).clients i).takes 1 := by
      intro k inside
      rw [show k = 0 by omega]
      simp only [Bool.or_eq_true, beq_iff_eq] at taken
      rcases taken with none | accepted
      · simp [zero, none] at changed
      · exact accepted
    rcases sendOrClose_eq (w.regrant i) i
      [leaseFrame ((w.regrant i).clients i).granted ((w.regrant i).clients i).requested] present
      (by intro frame only; rw [List.mem_singleton.mp only]; exact leaseFrame_fits _ _)
      with ⟨-, sent⟩ | ⟨refused, -⟩
    · rw [sent, deliverAll_fd]
      exact present
    · exact absurd accepts refused
  · exact present

theorem refreshLeases_opened (w : Worker) (i : Slot) (opened : (w.clients i).fd.isSome = true)
    (unmarked : (w.clients i).granted = fun _ => false) (taken : w.leaseFrameTaken i = true) :
    (w.refreshLeases.clients i).fd.isSome = true := by
  obtain ⟨before, after, first, last⟩ := slots_split_apart i
  have early := (foldl_slots refreshSlot_step first w.monotonicMilliseconds.expireLeases).2.2 i before
  rw [refreshLeases, slots_split i, List.foldl_append, List.foldl_cons]
  unfold leaseFrameTaken leaseTurn at taken
  generalize (slots.take i.val).foldl refreshSlot w.monotonicMilliseconds.expireLeases = v at early taken ⊢
  have client : v.clients i = w.clients i := early
  rw [(foldl_slots refreshSlot_step last (v.refreshSlot i)).2.2 i after]
  exact refreshSlot_opened v i (by rw [client]; exact opened) (by rw [client]; exact unmarked) taken

theorem sendHistoryComplete_restful (w : Worker) (i : Slot) :
    Restful w (w.sendHistoryComplete i).2 := by
  unfold sendHistoryComplete
  split
  · exact ⟨rfl, fun _ => Marked.refl _⟩
  · exact writeFrame_restful w i _

theorem sendRecovery_restful (w : Worker) (i : Slot) (frames : List Frame) :
    Restful w (w.sendRecovery i frames).2 := by
  have written := writeFrames_restful w i frames
  unfold sendRecovery
  split
  · rename_i next refused
    rwa [refused] at written
  · rename_i next sent
    rw [sent] at written
    exact written.trans (sendHistoryComplete_restful next i)

theorem replayClient_restful (w : Worker) (i : Slot) (requestedAfter : Nat) (recovery : RecoveryMode) :
    Restful w (w.replayClient i requestedAfter recovery).2 := by
  have popped : Restful w w.outcome.2 := ⟨rfl, fun _ => Marked.refl _⟩
  unfold replayClient
  split
  · split
    · rename_i next failed
      rwa [failed] at popped
    · rename_i next allocated
      rw [allocated] at popped
      exact popped.trans (sendRecovery_restful next i _)
  · exact sendRecovery_restful w i _

theorem welcome_restful (w : Worker) (i : Slot) (request : AttachRequest) :
    Restful w (w.welcome i request).2 := by
  have shown := writeFrame_restful w i w.geometryFrame
  simp only [welcome]
  split
  · exact sendHistoryComplete_restful w i
  split
  · split
    · rename_i next refused
      rwa [refused] at shown
    · rename_i next sent
      rw [sent] at shown
      exact shown.trans (replayClient_restful next i _ _)
  · exact replayClient_restful w i _ _

/-- An attach whose lease frame is accepted misuses nothing and takes nothing from others. -/
theorem beginClient_gentle (w : Worker) (i : Slot) (payload : Bytes) (agree : w.Agree)
    (sound : w.journal.Sound []) (opened : (w.clients i).fd.isSome = true)
    (unready : (w.clients i).ready = false) (fresh : stream (w.clients i).link.delivered = [])
    (taken : ∀ request, attachRequest payload = some request →
      (!request.control && decide (maxViewerClients ≤ w.viewerCount)) = false →
      (w.enrol i request).leaseFrameTaken i = true) : Gentle i w (w.beginClient i payload).2 := by
  have unmarked : (w.clients i).granted = fun _ => false :=
    unviewed_unmarked agree (by simp [Client.viewer, unready])
  unfold beginClient
  split
  · exact (Tail.refl i w).gentle
  · rename_i request parsed
    split
    · exact (Tail.refl i w).gentle
    rename_i room
    have accepted := taken request parsed (by simpa using room)
    have own : ((w.enrol i request).clients i).fd = (w.clients i).fd ∧
        ((w.enrol i request).clients i).link.conn = (w.clients i).link.conn ∧
        ((w.enrol i request).clients i).granted = (w.clients i).granted := by
      unfold enrol
      rw [setClient_same]
      exact ⟨rfl, rfl, rfl⟩
    have stored : Aside i w (w.enrol i request) :=
      ⟨rfl, rfl, fun j apart => by rw [enrol_other w apart]; exact Follows.refl _,
        fun _ => ⟨own.1, own.2.1⟩⟩
    have leases : KeepsLeases w (w.enrol i request).refreshLeases := by
      apply refresh_keepsLeases agree (enrol_base w i request agree.toBase unready) rfl
      intro j flag marked
      have apart : j ≠ i := by
        intro same
        rw [same, unmarked] at marked
        exact Bool.false_ne_true marked
      rw [enrol_other w apart]
      exact ⟨rfl, rfl, rfl⟩
    have present := refreshLeases_opened (w.enrol i request) i (by rw [own.1]; exact opened)
      (by rw [own.2.2]; exact unmarked) accepted
    have refreshed := refreshLeases_carries (w.enrol i request)
    have kept := (refreshed.slot i).openSlot present
    have admitted := enrol_admitted w i request opened fresh
    have journal : (w.enrol i request).refreshLeases.journal = w.journal := refreshed.journal.trans rfl
    have admitted' : Admitted (w.enrol i request).refreshLeases i request := by
      rw [ite_self] at kept
      constructor
      · exact present
      · rw [kept.ready]; exact admitted.ready
      · rw [kept.control]; exact admitted.control
      · rw [kept.attach, refreshed.journal]; exact admitted.attach
      · rw [kept.stream, List.append_nil]; exact admitted.stream
    have welcomed := welcome_open _ i request (journal.symm ▸ sound) admitted'
    have answered : Aside i (w.enrol i request).refreshLeases
        ((w.enrol i request).refreshLeases.welcome i request).2 :=
      ⟨by rw [welcomed.journal], welcomed.misuse,
        fun j apart => by rw [welcomed.other j apart]; exact Follows.refl _, fun _ => welcomed.own⟩
    have rest : Tail i (w.enrol i request).refreshLeases
        ((w.enrol i request).refreshLeases.welcome i request).2 :=
      ⟨answered, welcome_restful _ i request⟩
    exact (Gentle.mk (stored.trans (refreshed.aside i)) leases).then rest

/-- Whether the lease frame of the attach that is served now will be accepted. -/
def attachTaken (w : Worker) (i : Slot) (frame : Option Frame) : Bool :=
  match frame with
  | none => true
  | some frame =>
    match attachRequest frame.payload with
    | none => true
    | some request =>
      frame.kind ≠ .attachRequest || (w.clients i).ready ||
        (!request.control && decide (maxViewerClients ≤ w.viewerCount)) ||
        (w.enrol i request).leaseFrameTaken i

/-- A client that asks for the leases to be given to another. -/
def Transfer (w : Worker) (i : Slot) (frame : Option Frame) : Prop :=
  (w.clients i).control = true ∧ ∃ request, frame = some request ∧ request.kind = .takeControl

theorem serviceClient_gentle (w : Worker) (i : Slot) (frame : Option Frame) (agree : w.Agree)
    (sound : w.journal.Sound []) (opened : (w.clients i).fd.isSome = true)
    (known : UpToDate w.journal (w.clients i)) (taken : w.attachTaken i frame = true) :
    Aside i w (w.serviceClient i frame) ∧
      (KeepsLeases w (w.serviceClient i frame) ∨ Transfer w i frame) := by
  have gentle : ∀ {v : Worker}, Gentle i w v → Aside i w v ∧ (KeepsLeases w v ∨ Transfer w i frame) :=
    fun gentle => ⟨gentle.aside, .inl gentle.leases⟩
  have closed := gentle (closeClient_tail w i).gentle
  have present : (w.clients i).fd ≠ none := Option.isSome_iff_ne_none.mp opened
  unfold serviceClient
  rw [if_neg present]
  split
  · exact closed
  rename_i request
  split
  · rename_i unready
    have waiting : (w.clients i).ready = false := by simpa using unready
    split
    · exact closed
    rename_i attach
    have begun := beginClient_gentle w i request.payload agree sound opened waiting
      (known.unready waiting) (by
        intro parsed found room
        simp only [attachTaken, found, waiting, room, Bool.or_false] at taken
        simpa [not_not.mp attach] using taken)
    split
    · rename_i next done
      rw [done] at begun
      exact gentle begun
    · rename_i next refused
      rw [refused] at begun
      split
      · exact gentle begun
      · exact gentle (begun.then (closeClient_tail next i))
  · obtain ⟨aside, leases | ⟨control, kind⟩⟩ := serviceReadyClient_gentle w i request agree opened
    · exact ⟨aside, .inl leases⟩
    · exact ⟨aside, .inr ⟨control, request, rfl, kind⟩⟩

/-- A handler that publishes: every viewer that is left gets the new outputs. -/
structure Advances (w w' : Worker) : Prop where
  published : ∃ new, w'.journal.outputs = w.journal.outputs ++ new ∧
    ∀ i, Follows (outputFrames (numbered (w.journal.outputs.length + 1) new))
      (w.clients i) (w'.clients i)
  misuse : w'.misuse = w.misuse
  marked : ∀ i, Marked (w.clients i) (w'.clients i)

theorem Advances.trans (first : Advances a b) (second : Advances b c) :
    Advances a c := by
  obtain ⟨new, outputs, slot⟩ := first.published
  obtain ⟨more, outputs', slot'⟩ := second.published
  refine ⟨⟨new ++ more, by rw [outputs', outputs, List.append_assoc], fun i => ?_⟩,
    second.misuse.trans first.misuse, fun i => (first.marked i).trans (second.marked i)⟩
  have joined := (slot i).trans (slot' i)
  rw [outputs, List.length_append, ← outputFrames_append] at joined
  rw [numbered_append, show a.journal.outputs.length + 1 + new.length =
    a.journal.outputs.length + new.length + 1 by omega]
  exact joined

theorem still_advances (clients : w'.clients = w.clients)
    (outputs : w'.journal.outputs = w.journal.outputs) (misuse : w'.misuse = w.misuse) :
    Advances w w' where
  published := ⟨[], by rw [outputs, List.append_nil], fun i => by rw [clients]; exact Follows.refl _⟩
  misuse := misuse
  marked := fun i => by rw [clients]; exact Marked.refl _

theorem saveCheckpoint_advances (w : Worker) : Advances w w.saveCheckpoint := by
  simp only [saveCheckpoint]
  split
  · exact still_advances rfl rfl rfl
  split
  · exact still_advances rfl rfl rfl
  split
  · exact still_advances rfl rfl rfl
  split <;> exact still_advances rfl rfl rfl

theorem publishOutput_advances (w : Worker) (output : Bytes)
    (counted : w.journal.outputs.length = w.journal.sequence) :
    Advances w (w.publishOutput output) := by
  have sent := broadcastOutput_carries (w.recordOutput output) (w.recordOutput output).journal.sequence
    output
  have marks := (broadcastOutput_restful (w.recordOutput output)
    (w.recordOutput output).journal.sequence output).marked
  simp only [publishOutput]
  generalize (w.recordOutput output).broadcastOutput (w.recordOutput output).journal.sequence output =
    v at sent marks ⊢
  have one : outputFrames (numbered (w.journal.outputs.length + 1) [output]) =
      sequencedOutput (w.journal.sequence + 1) output := by
    simp [outputFrames, numbered, counted]
  have before : Advances w v :=
    ⟨⟨[output], by rw [sent.journal]; rfl, fun i => one.symm ▸ sent.slot i⟩, sent.misuse, marks⟩
  split
  · exact before.trans (saveCheckpoint_advances v)
  · exact before

theorem flushOutput_advances (w : Worker) (counted : w.journal.outputs.length = w.journal.sequence) :
    Advances w w.flushOutput := by
  unfold flushOutput
  split
  · exact still_advances rfl rfl rfl
  · exact (publishOutput_advances w _ counted).trans (still_advances rfl rfl rfl)

theorem bufferOutput_advances {read : Bytes} (w : Worker) (output : Bytes)
    (tracks : Tracks w.journal.pending.bytes read w) : Advances w (w.bufferOutput output) := by
  have counted := tracks.sound.counted
  have aside := clock_tracks tracks
  simp only [bufferOutput]
  split
  · rename_i pending failed
    have bytes : pending.bytes = w.journal.pending.bytes := append_bytes failed
    have noted : Advances w (w.monotonicMilliseconds.outcome.2.setPending pending) :=
      still_advances rfl rfl rfl
    have flushed := flushOutput_advances (w.monotonicMilliseconds.outcome.2.setPending pending) counted
    have after := (flushOutput_tracks bytes (setPending_tracks pending aside)).1.sound.counted
    have fed : Advances (w.monotonicMilliseconds.outcome.2.setPending pending).flushOutput
        ((w.monotonicMilliseconds.outcome.2.setPending pending).flushOutput.feed output) :=
      still_advances rfl rfl rfl
    exact ((noted.trans flushed).trans fed).trans (publishOutput_advances _ output after)
  · rename_i pending _
    have noted : Advances w ((w.monotonicMilliseconds.outcome.2.setPending pending).feed output) :=
      still_advances rfl rfl rfl
    split
    · exact noted.trans (flushOutput_advances _ counted)
    · exact noted

theorem drainPty_advances (reads : List Bytes) {read : Bytes} (w : Worker)
    (tracks : Tracks w.journal.pending.bytes read w) : Advances w (w.drainPty reads) := by
  induction reads generalizing read w with
  | nil => exact still_advances rfl rfl rfl
  | cons output more ih =>
    unfold drainPty
    split
    · exact still_advances rfl rfl rfl
    · exact (bufferOutput_advances w output tracks).trans (ih _ (bufferOutput_tracks output tracks))

/-- A client whose connection accepts the frames of the flush is open after it. -/
theorem flushOutput_opened (w : Worker) (i : Slot) (opened : (w.clients i).fd.isSome = true)
    (accepts : (w.clients i).viewer = true → (w.clients i).takes
      (sequencedOutput (w.journal.sequence + 1) w.journal.pending.bytes).length) :
    (w.flushOutput.clients i).fd.isSome = true := by
  have sent : ∀ (sequence : Nat) (payload : Bytes) (v : Worker) (j : Slot), SlotStep (fun a b =>
      a.fd.isSome = true → (a.viewer = true → a.takes (sequencedOutput sequence payload).length) →
        b.fd.isSome = true) j v
      (if (v.clients j).viewer then v.sendOrClose j (sequencedOutput sequence payload) else v) := by
    intro sequence payload v j
    split
    · rename_i viewer
      have step := sendOrClose_step v j (sequencedOutput sequence payload)
        (Client.viewer_open viewer) (fun frame => sequencedOutput_fits)
      refine ⟨step.toQuiet, step.other, fun present takes => ?_⟩
      rcases sendOrClose_eq v j (sequencedOutput sequence payload)
        (Client.viewer_open viewer) (fun frame => sequencedOutput_fits) with ⟨-, done⟩ | ⟨refused, -⟩
      · rw [done, deliverAll_fd]
        exact present
      · exact absurd (takes viewer) refused
    · exact SlotStep.same fun present _ => present
  unfold flushOutput
  split
  · exact opened
  · have loop := (foldl_all_slots (sent (w.journal.sequence + 1) w.journal.pending.bytes)
      (w.recordOutput w.journal.pending.bytes)).2 i opened accepts
    have saved : ∀ v : Worker, v.saveCheckpoint.clients = v.clients := by
      intro v
      simp only [saveCheckpoint]
      split
      · rfl
      split
      · rfl
      split
      · rfl
      split <;> rfl
    change ((w.publishOutput w.journal.pending.bytes).clients i).fd.isSome = true
    simp only [publishOutput]
    split
    · rw [saved]
      exact loop
    · exact loop

end Machinen.Session.Worker
