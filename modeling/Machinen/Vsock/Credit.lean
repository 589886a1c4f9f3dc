import Machinen.Vsock.Projection

/-! Credit towards the guest: with counters that wrap at 32 bits, no more is under way than the
guest has room for, and a connection is paused only while there is none. -/
namespace Machinen.Vsock

open Bytes Vmm

theorem sub32_add32 (b f n : Nat) : sub32 (add32 b n) f ≤ sub32 b f + n := by
  unfold sub32 add32
  omega

theorem sub32_advance {b f f' : Nat} (within : sub32 f' f ≤ sub32 b f) : sub32 b f' ≤ sub32 b f := by
  unfold sub32 at *
  omega

variable {c c' : Connection} {s s' : Sock} {guestCid : Nat}

theorem peerRoom_eq (told : c.peerBufAlloc ≠ 0) :
    peerRoom c = c.peerBufAlloc - sub32 c.bytesToPeer c.peerFwdCnt := by
  unfold peerRoom
  rw [if_neg told]
  dsimp only
  split <;> omega

theorem peerRoom_congr (alloc : c'.peerBufAlloc = c.peerBufAlloc)
    (sent : c'.bytesToPeer = c.bytesToPeer) (fwd : c'.peerFwdCnt = c.peerFwdCnt) :
    peerRoom c' = peerRoom c := by
  unfold peerRoom
  rw [alloc, sent, fwd]

structure Stream.Solvent (s : Stream) : Prop where
  within : ∀ c ∈ s.conn, sub32 c.bytesToPeer c.peerFwdCnt ≤ c.peerBufAlloc
  fits : ∀ p ∈ s.sock.sent, Op.ofCode p.hdr.op = .rw → p.body.length ≤ p.room
  paused : ∀ c ∈ s.conn, c.paused = true → peerRoom c = 0

/-- A connection in balance. The guest is only sent bytes after it told its window, and what
the ring did not take still fits. -/
structure Balanced (c : Connection) : Prop where
  within : sub32 c.bytesToPeer c.peerFwdCnt ≤ c.peerBufAlloc
  told : c.peerBufAlloc = 0 → c.state = .connecting ∧ c.pending = []
  pending : c.pending.length ≤ peerRoom c
  paused : c.paused = true → peerRoom c = 0

def Fits (s : Sock) : Prop := ∀ p ∈ s.sent, Op.ofCode p.hdr.op = .rw → p.body.length ≤ p.room

theorem Fits.place (fits : Fits s) {hdr : VsockHdr} {body : Bytes} {room : Nat}
    (short : Op.ofCode hdr.op = .rw → body.length ≤ room) : Fits (s.place hdr body room) := by
  intro p listed
  rcases List.mem_append.mp listed with old | new
  · exact fits p old
  · rw [List.mem_singleton.mp new]
    exact short

def Local.Honest (s : Stream) : Local → Prop
  | .dial hdr _ _ _ => hdr.fwdCnt = 0
  | .packet hdr _ _ => ∀ c ∈ s.conn,
      sub32 hdr.fwdCnt c.peerFwdCnt ≤ sub32 c.bytesToPeer c.peerFwdCnt ∧ c.peerBufAlloc ≤ hdr.bufAlloc
  | .accept .. | .write _ | .finish | .drain _ | .hangUp => True

instance (s : Stream) : (l : Local) → Decidable (l.Honest s)
  | .dial hdr _ _ _ => inferInstanceAs (Decidable (hdr.fwdCnt = 0))
  | .packet hdr _ _ => inferInstanceAs (Decidable (∀ c ∈ s.conn,
      sub32 hdr.fwdCnt c.peerFwdCnt ≤ sub32 c.bytesToPeer c.peerFwdCnt ∧ c.peerBufAlloc ≤ hdr.bufAlloc))
  | .accept .. | .write _ | .finish | .drain _ | .hangUp => isTrue trivial

def Local.Advertises (_ : Stream) : Local → Prop
  | .dial hdr _ _ _ | .packet hdr _ _ => hdr.bufAlloc ≠ 0
  | .accept .. | .write _ | .finish | .drain _ | .hangUp => True

instance (s : Stream) : (l : Local) → Decidable (l.Advertises s)
  | .dial hdr _ _ _ | .packet hdr _ _ => inferInstanceAs (Decidable (hdr.bufAlloc ≠ 0))
  | .accept .. | .write _ | .finish | .drain _ | .hangUp => isTrue trivial

theorem Balanced.send (balanced : Balanced c) (told : c.peerBufAlloc ≠ 0) (room : peerRoom c ≠ 0)
    {n : Nat} (fits : n ≤ peerRoom c) : Balanced
      { c with bytesToPeer := add32 c.bytesToPeer n, pending := [] } where
  within := by
    rw [peerRoom_eq told] at fits
    have grown := sub32_add32 c.bytesToPeer c.peerFwdCnt n
    have within := balanced.within
    change sub32 (add32 c.bytesToPeer n) c.peerFwdCnt ≤ c.peerBufAlloc
    omega
  told none := absurd none told
  pending := Nat.zero_le _
  paused paused := absurd (balanced.paused paused) room

theorem Pumped.balanced {env : Pump} (pumped : Pumped guestCid env c s c' s')
    (open_ : c.state = .established) (nothing : c.pending = []) (balanced : Balanced c) (fits : Fits s) :
    Balanced c' ∧ Fits s' := by
  have told : c.peerBufAlloc ≠ 0 := fun none => by
    have waiting := (balanced.told none).1
    rw [open_] at waiting
    exact nomatch waiting
  cases pumped with
  | full room => exact ⟨⟨balanced.within, balanced.told, balanced.pending, fun _ => room⟩, fits⟩
  | again => exact ⟨balanced, fits⟩
  | eof room drained ended count =>
    refine ⟨⟨balanced.within, fun none => absurd none told, balanced.pending, balanced.paused⟩, ?_⟩
    cases env.next with
    | false => exact fits
    | true => exact fits.place fun rw_ => absurd (Op.ofCode_code .shutdown ▸ rw_) (by decide)
  | data payload rest room unread short =>
    have sent := balanced.send told room short
    rw [← nothing] at sent
    exact ⟨sent, Fits.place (s := { s with unread := rest }) fits fun _ => short⟩
  | parked payload rest room unread short =>
    exact ⟨⟨balanced.within, fun none => absurd none told, short, balanced.paused⟩, fits⟩

theorem Drained.balanced {env : Pump} (drained : Drained guestCid env c s c' s') (balanced : Balanced c)
    (fits : Fits s) : Balanced c' ∧ Fits s' := by
  cases drained with
  | same => exact ⟨balanced, fits⟩
  | full room => exact ⟨⟨balanced.within, balanced.told, balanced.pending, fun _ => room⟩, fits⟩
  | direct open_ nothing pumped => exact pumped.balanced open_ nothing balanced fits
  | flushed open_ room flush pumped =>
    have told : c.peerBufAlloc ≠ 0 := fun none => by
      have waiting := (balanced.told none).1
      rw [open_] at waiting
      exact nomatch waiting
    exact pumped.balanced open_ rfl (balanced.send told room balanced.pending)
      (fits.place fun _ => balanced.pending)

theorem Told.balanced (told : Told guestCid c s c' s')
    (balanced : Balanced c) (fits : Fits s) : Balanced c' ∧ Fits s' := by
  cases told with
  | missed => exact ⟨balanced, fits⟩
  | placed =>
    exact ⟨⟨balanced.within, balanced.told, balanced.pending, balanced.paused⟩,
      fits.place fun rw_ => absurd (Op.ofCode_code .creditUpdate ▸ rw_) (by decide)⟩

theorem Balanced.credit (balanced : Balanced c) {hdr : VsockHdr}
    (honest : sub32 hdr.fwdCnt c.peerFwdCnt ≤ sub32 c.bytesToPeer c.peerFwdCnt ∧
      c.peerBufAlloc ≤ hdr.bufAlloc)
    (advertises : hdr.bufAlloc ≠ 0) : Balanced (c.credit hdr) := by
  have advanced := sub32_advance honest.1
  have within := balanced.within
  have room : peerRoom (c.credit hdr) = hdr.bufAlloc - sub32 c.bytesToPeer hdr.fwdCnt :=
    peerRoom_eq advertises
  refine ⟨?_, fun none => absurd none advertises, ?_, ?_⟩
  · change sub32 c.bytesToPeer hdr.fwdCnt ≤ hdr.bufAlloc
    omega
  · change c.pending.length ≤ peerRoom (c.credit hdr)
    rcases Nat.eq_zero_or_pos c.peerBufAlloc with none | told
    · rw [(balanced.told none).2]
      exact Nat.zero_le _
    · have pending := balanced.pending
      rw [peerRoom_eq (by omega)] at pending
      omega
  · intro paused
    obtain ⟨was, still⟩ := Bool.and_eq_true_iff.mp paused
    have before := balanced.paused was
    have same : peerRoom (c.credit hdr) = peerRoom
      { c with peerBufAlloc := hdr.bufAlloc, peerFwdCnt := hdr.fwdCnt } :=
      peerRoom_congr rfl rfl rfl
    rw [same]
    simpa [before] using still

theorem Balanced.packet {env : Reception} {hdr : VsockHdr} {body : Bytes}
    (received : Received guestCid env hdr body c s (some c') s') (balanced : Balanced (c.credit hdr))
    (told : (c.credit hdr).peerBufAlloc ≠ 0) (fits : Fits s) : Balanced c' ∧ Fits s' := by
  have routed : Fits (s.route hdr body) := fits
  cases received with
  | response op => exact ⟨⟨balanced.within, fun none => absurd none told, balanced.pending, balanced.paused⟩, fits⟩
  | rw op sent =>
    exact sent.balanced ⟨balanced.within, balanced.told, balanced.pending, balanced.paused⟩ routed
  | told op sent => exact sent.balanced balanced routed
  | other op => exact ⟨balanced, fits⟩

namespace Stream

/-- What carries the statements along: the connection is in balance. -/
def Sound (s : Stream) : Prop := (∀ c ∈ s.conn, Balanced c) ∧ Fits s.sock

theorem Sound.solvent {s : Stream} (sound : s.Sound) : s.Solvent :=
  ⟨fun c here => (sound.1 c here).within, sound.2, fun c here => (sound.1 c here).paused⟩

theorem Sound.step {s t : Stream} {l : Local} (sound : s.Sound)
    (fair : l.Honest s ∧ l.Advertises s) (next : Stream.step guestCid s l = some t) : t.Sound := by
  cases l with
  | accept guestPort hostPort sock new placed =>
    cases next
    unfold Stream.accepted
    cases placed with
    | true =>
      refine ⟨?_, Fits.place (s := { written := new.early, unread := new.early, ended := new.ended }) nofun
        fun rw_ => absurd (Op.ofCode_code .request ▸ rw_) (by decide)⟩
      rintro c here
      cases here
      exact ⟨Nat.le_refl _, fun _ => ⟨rfl, rfl⟩, Nat.zero_le _, nofun⟩
    | false => exact ⟨nofun, nofun⟩
  | dial hdr fd sock placed =>
    cases next
    unfold Stream.dialed
    refine ⟨?_, ?_⟩
    · rintro c here
      cases here
      refine ⟨?_, fun none => absurd none fair.2, Nat.zero_le _, nofun⟩
      have start : hdr.fwdCnt = 0 := fair.1
      change sub32 0 hdr.fwdCnt ≤ hdr.bufAlloc
      rw [start]
      exact Nat.zero_le _
    · cases placed with
      | false => exact nofun
      | true =>
        exact Fits.place (s := { dialed := true }) nofun fun rw_ =>
          absurd (Op.ofCode_code .response ▸ rw_) (by decide)
  | write data =>
    obtain ⟨-, rfl⟩ := Run.guarded next
    exact sound
  | finish =>
    obtain ⟨-, rfl⟩ := Run.guarded next
    exact sound
  | drain env =>
    obtain ⟨c, here, rfl⟩ := Option.map_eq_some_iff.mp next
    obtain ⟨balanced, fits⟩ := (drain_drained guestCid env c s.sock).balanced (sound.1 c here) sound.2
    exact ⟨fun d same => Option.some.inj same ▸ balanced, fits⟩
  | hangUp =>
    obtain ⟨c, here, rfl⟩ := Option.map_eq_some_iff.mp next
    exact ⟨nofun, sound.2⟩
  | packet hdr body env =>
    obtain ⟨c, here, mapped⟩ := Option.bind_eq_some_iff.mp next
    obtain ⟨⟨after, s'⟩, received, rfl⟩ := Option.map_eq_some_iff.mp mapped
    have credited := (sound.1 c here).credit (fair.1 c here) fair.2
    cases after with
    | some c' =>
      obtain ⟨balanced, fits⟩ := Balanced.packet (packet_received guestCid received) credited fair.2 sound.2
      exact ⟨fun d same => Option.some.inj same ▸ balanced, fits⟩
    | none =>
      cases packet_received guestCid received with
      | shutdown | rst => exact ⟨nofun, sound.2⟩

end Stream

/-- In every run with an honest guest that advertises a window, the credit is kept. -/
theorem exec_solvent (guestCid : Nat) (ports : List PortMap) (as : List Action) (b : Bridge)
    (run : (Bridge.start guestCid ports).exec as = some b)
    (fair : Run.Meets Bridge.step (Bridge.Each fun s l => l.Honest s ∧ l.Advertises s)
    (Bridge.start guestCid ports) as) (x : Nat) : (b.stream x).Solvent :=
  Stream.Sound.solvent
    (Bridge.exec_streams (fun _ _ _ sound fine next => sound.step fine next) ⟨nofun, nofun⟩ fair run x)

def windowRun (bufAlloc : Nat) : List Action :=
  [.guest (packetOf .request 9000 2222 bufAlloc 0) [] { dial := some 7, placed := true },
    .peerWrite 0 [1, 2]] ++
    eventRound { pollIn := true } ⟨true, true, 4096⟩ ++ eventRound { pollIn := true } ⟨true, true, 4096⟩

/-- A window of one byte: the second byte waits. -/
theorem exec_solvent_small : ∃ b, (Bridge.start 3 [⟨2222, .outbound⟩]).exec (windowRun 1) = some b ∧
    (b.stream 0).Solvent :=
  ⟨_, rfl, exec_solvent 3 [⟨2222, .outbound⟩] (windowRun 1) _ rfl (by decide +kernel) 0⟩

/-- A guest that says it has no buffer is taken not to have said anything. -/
theorem insolvent_unadvertised : ∃ b, (Bridge.start 3 [⟨2222, .outbound⟩]).exec (windowRun 0) = some b ∧
    Run.Meets Bridge.step (Bridge.Each Local.Honest) (Bridge.start 3 [⟨2222, .outbound⟩]) (windowRun 0) ∧
    ¬ (b.stream 0).Solvent := by
  refine ⟨_, rfl, by decide +kernel, fun solvent => ?_⟩
  exact absurd (solvent.within _ rfl) (by decide)

end Machinen.Vsock
