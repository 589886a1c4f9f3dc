import Machinen.Vsock.Projection

/-! Control packets: the SHUTDOWN of a connection that closes, the RESPONSE to the guest's
REQUEST and the RST for a packet of no connection are injected once and not kept. They reach
the guest in every run in which the ring has a chain for each. -/
namespace Machinen.Vsock

open Bytes Vmm

/-- A packet of an operation was placed in the guest's ring. -/
def Sock.Told (s : Sock) (op : Op) : Prop := ∃ p ∈ s.sent, Op.ofCode p.hdr.op = op

instance (s : Sock) (op : Op) : Decidable (s.Told op) := inferInstanceAs (Decidable (∃ p ∈ s.sent, _))

def ReadsEnd (env : Pump) (c : Connection) (s : Sock) : Prop :=
  c.state = .established ∧ s.unread = [] ∧ s.ended = true ∧ env.count ≠ 0 ∧ peerRoom c ≠ 0 ∧
    (c.pending = [] ∨ env.flush = true ∧
      peerRoom { c with bytesToPeer := add32 c.bytesToPeer c.pending.length, pending := [] } ≠ 0)

instance (env : Pump) (c : Connection) (s : Sock) : Decidable (ReadsEnd env c s) := by
  unfold ReadsEnd
  infer_instance

/-- The ring has a chain for the RESPONSE, and for the SHUTDOWN the first time. -/
def Local.Answered (s : Stream) : Local → Prop
  | .dial _ _ _ placed => placed = true
  | .drain env => ∀ c ∈ s.conn, ReadsEnd env c s.sock → env.next = true ∨ s.sock.Told .shutdown
  | .accept .. | .write _ | .finish | .hangUp | .packet .. => True

instance (s : Stream) : (l : Local) → Decidable (l.Answered s)
  | .dial _ _ _ placed => inferInstanceAs (Decidable (placed = true))
  | .drain env => inferInstanceAs (Decidable (∀ c ∈ s.conn,
      ReadsEnd env c s.sock → env.next = true ∨ s.sock.Told .shutdown))
  | .accept .. | .write _ | .finish | .hangUp | .packet .. => isTrue trivial

structure Stream.Controlled (s : Stream) : Prop where
  closing : ∀ c ∈ s.conn, c.state = .closing → s.sock.Told .shutdown
  response : ∀ c ∈ s.conn, s.sock.dialed = true → s.sock.Told .response

def Longer (s s' : Sock) : Prop := s'.dialed = s.dialed ∧ s.sent <+: s'.sent

variable {s s' : Sock} {guestCid : Nat} {env : Pump} {c c' : Connection}

theorem Longer.told (longer : Longer s s') {op : Op} (told : s.Told op) : s'.Told op := by
  obtain ⟨p, listed, same⟩ := told
  exact ⟨p, longer.2.subset listed, same⟩

theorem Longer.refl (s : Sock) : Longer s s := ⟨rfl, List.prefix_refl _⟩

theorem longer_place (s : Sock) (hdr : VsockHdr) (body : Bytes) (room : Nat) :
    Longer s (s.place hdr body room) :=
  ⟨rfl, List.prefix_append _ _⟩

theorem Longer.trans {s'' : Sock} (first : Longer s s') (later : Longer s' s'') : Longer s s'' :=
  ⟨later.1.trans first.1, first.2.trans later.2⟩

theorem told_place (s : Sock) {hdr : VsockHdr} {op : Op} (same : Op.ofCode hdr.op = op) (body : Bytes)
    (room : Nat) :
    (s.place hdr body room).Told op := ⟨_, List.mem_append_right _ (List.mem_singleton_self _), same⟩

theorem Pumped.longer (pumped : Pumped guestCid env c s c' s') : Longer s s' := by
  cases pumped with
  | full | again | parked => exact ⟨rfl, List.prefix_refl _⟩
  | eof =>
    cases env.next with
    | false => exact .refl s
    | true => exact longer_place s _ _ _
  | data => exact ⟨rfl, List.prefix_append _ _⟩

theorem Drained.longer (drained : Drained guestCid env c s c' s') : Longer s s' := by
  cases drained with
  | same | full => exact .refl s
  | direct open_ nothing pumped => exact pumped.longer
  | flushed open_ room flush pumped => exact (longer_place s _ _ _).trans pumped.longer

theorem Pumped.closing (pumped : Pumped guestCid env c s c' s') (open_ : c.state = .established)
    (closing : c'.state = .closing) :
    (s.unread = [] ∧ s.ended = true ∧ env.count ≠ 0 ∧ peerRoom c ≠ 0) ∧
      (env.next = true → s'.Told .shutdown) := by
  cases pumped with
  | full | again | data | parked =>
    have other : c.state = .closing := closing
    rw [open_] at other
    exact nomatch other
  | eof room drained ended count =>
    refine ⟨⟨drained, ended, count, room⟩, fun next => ?_⟩
    rw [next]
    exact told_place s (Op.ofCode_code .shutdown) _ _

theorem Drained.closing (drained : Drained guestCid env c s c' s') (closing : c'.state = .closing) :
    c.state = .closing ∨ ReadsEnd env c s ∧ (env.next = true → s'.Told .shutdown) := by
  cases drained with
  | same | full => exact .inl closing
  | direct open_ nothing pumped =>
    obtain ⟨⟨unread, ended, count, room⟩, told⟩ := pumped.closing open_ closing
    exact .inr ⟨⟨open_, unread, ended, count, room, .inl nothing⟩, told⟩
  | flushed open_ room flush pumped =>
    obtain ⟨⟨unread, ended, count, after⟩, told⟩ := pumped.closing open_ closing
    exact .inr ⟨⟨open_, unread, ended, count, room, .inr ⟨flush, after⟩⟩, told⟩

theorem Told.longer (told : Told guestCid c s c' s') :
    Longer s s' ∧ c'.state = c.state := by
  cases told with
  | missed => exact ⟨.refl s, rfl⟩
  | placed => exact ⟨longer_place s _ _ _, rfl⟩

namespace Stream

theorem Controlled.longer (controlled : Controlled ⟨some c, s⟩) (longer : Longer s s')
    (closing : c'.state = .closing → c.state = .closing) : Controlled ⟨some c', s'⟩ where
  closing d here shut := by
    cases here
    exact longer.told (controlled.closing c rfl (closing shut))
  response d here dialed := longer.told (controlled.response c rfl (longer.1 ▸ dialed))

theorem Controlled.packet {env : Reception} {hdr : VsockHdr} {body : Bytes} {after : Option Connection}
    (received : Received guestCid env hdr body c s after s')
    (controlled : Controlled ⟨some c, s⟩) : Controlled ⟨after, s'⟩ := by
  have routed : Longer s (s.route hdr body) := ⟨rfl, List.prefix_refl _⟩
  cases received with
  | response op => exact controlled.longer routed nofun
  | rw op told | told op told =>
    obtain ⟨longer, state⟩ := told.longer
    exact controlled.longer (routed.trans longer) fun shut => state ▸ shut
  | shutdown op | rst op => exact ⟨nofun, nofun⟩
  | other op => exact controlled.longer routed id

theorem Controlled.step {s t : Stream} {l : Local} (controlled : s.Controlled)
    (answered : l.Answered s) (next : Stream.step guestCid s l = some t) : t.Controlled := by
  cases l with
  | accept guestPort hostPort sock new placed =>
    cases next
    unfold Stream.accepted
    cases placed with
    | true =>
      refine ⟨?_, ?_⟩
      · rintro c here shut
        cases here
        exact nomatch shut
      · exact nofun
    | false => exact ⟨nofun, nofun⟩
  | dial hdr fd sock placed =>
    cases next
    obtain rfl : placed = true := answered
    refine ⟨?_, fun c here dialed => told_place _ (Op.ofCode_code .response) _ _⟩
    rintro c here shut
    cases here
    exact nomatch shut
  | write data =>
    obtain ⟨-, rfl⟩ := Run.guarded next
    exact ⟨controlled.closing, controlled.response⟩
  | finish =>
    obtain ⟨-, rfl⟩ := Run.guarded next
    exact ⟨controlled.closing, controlled.response⟩
  | drain env =>
    obtain ⟨c, here, rfl⟩ := Option.map_eq_some_iff.mp next
    obtain ⟨conn, sock⟩ := s
    cases here
    have drained := drain_drained guestCid env c sock
    refine ⟨?_, fun d _ dialed => drained.longer.told
      (controlled.response c rfl (drained.longer.1 ▸ dialed))⟩
    rintro d here shut
    cases here
    rcases drained.closing shut with already | ⟨ends, told⟩
    · exact drained.longer.told (controlled.closing c rfl already)
    · rcases answered c rfl ends with chain | before
      · exact told chain
      · exact drained.longer.told before
  | hangUp =>
    obtain ⟨c, here, rfl⟩ := Option.map_eq_some_iff.mp next
    exact ⟨nofun, nofun⟩
  | packet hdr body env =>
    obtain ⟨c, here, mapped⟩ := Option.bind_eq_some_iff.mp next
    obtain ⟨after, received, rfl⟩ := Option.map_eq_some_iff.mp mapped
    obtain ⟨conn, sock⟩ := s
    cases here
    exact controlled.packet (packet_received guestCid received)

end Stream
namespace Bridge

variable {b b' : Bridge}

/-- A packet of no connection is dialed only where it is a REQUEST to a mapped port, the
socket can be connected and there is room for one more. -/
def Dials (b : Bridge) (hdr : VsockHdr) (env : Reception) : Prop :=
  Op.ofCode hdr.op = .request ∧ b.findOutbound hdr.dstPort = true ∧ env.dial ≠ none ∧
    b.conns.length < bridgeConnsMax

/-- The ring has a chain for the RST that answers a packet of no connection. -/
def RstPlaced (b : Bridge) : Action → Prop
  | .guest hdr _ env => b.route hdr = none → ¬ b.Dials hdr env → env.placed = true
  | _ => True

instance (b : Bridge) (hdr : VsockHdr) (env : Reception) : Decidable (b.Dials hdr env) := by
  unfold Dials
  infer_instance

instance (b : Bridge) : (a : Action) → Decidable (b.RstPlaced a)
  | .guest hdr _ env =>
    inferInstanceAs (Decidable (b.route hdr = none → ¬ b.Dials hdr env → env.placed = true))
  | .peerWrite .. | .peerClose _ | .build | .poll | .polled .. | .accept .. | .events _ | .retry _ => isTrue trivial

theorem guest_resets (b : Bridge) (hdr : VsockHdr) (body : Bytes) (env : Reception) :
    (b.dispatchGuestPacket hdr body env).resets = b.resets ∨
      b.route hdr = none ∧ ¬ b.Dials hdr env ∧
        (b.dispatchGuestPacket hdr body env).resets = b.resets ++ [(hdr, env.placed)] := by
  unfold dispatchGuestPacket
  cases route : b.route hdr with
  | none =>
    dsimp only
    unfold receiveUnknown
    split
    · cases dial : env.dial with
      | none => exact .inr ⟨rfl, fun dials => dials.2.2.1 dial, rfl⟩
      | some fd =>
        dsimp only
        split
        · rename_i full
          exact .inr ⟨rfl, fun dials => absurd dials.2.2.2 (Nat.not_lt.mpr full), rfl⟩
        · exact .inl rfl
    · rename_i other
      exact .inr ⟨rfl, fun dials => other ⟨dials.1, dials.2.1⟩, rfl⟩
  | some k =>
    refine .inl ?_
    dsimp only
    cases b.conns[k]? with
    | none => rfl
    | some c =>
      dsimp only
      cases receivePacket b.guestCid env hdr body c (b.socks c.sock) with
      | none => rfl
      | some after => obtain ⟨_ | c', s⟩ := after <;> rfl

theorem startConnection_resets (b : Bridge) (guestPort fd : Nat) (early : Bytes) (ended placed : Bool) :
    (b.startConnection guestPort fd early ended placed).resets = b.resets := by
  unfold startConnection
  grind [trap, pushConn, setSock]

theorem step_resets (delivered : ∀ p ∈ b.resets, p.2 = true) {a : Action} (placed : b.RstPlaced a)
    (next : b.step a = some b') : ∀ p ∈ b'.resets, p.2 = true := by
  cases (step_taken next).2 with
  | peerWrite | peerClose | build | poll | polled | nothing => exact delivered
  | accept =>
    rw [startConnection_resets]
    exact delivered
  | events entry set env =>
    rw [(dispatchEvents_kept _ entry env).resets]
    exact delivered
  | retry env =>
    rw [(retry_kept _ env).resets]
    exact delivered
  | guest hdr body env =>
    rcases guest_resets b hdr body env with same | ⟨unknown, undialed, added⟩
    · rw [same]
      exact delivered
    · rw [added, List.forall_mem_append, List.forall_mem_singleton]
      exact ⟨delivered, placed unknown undialed⟩

end Bridge

/-- In every run in which the ring has a chain for each control packet, none is lost. -/
theorem exec_controlled (guestCid : Nat) (ports : List PortMap) (as : List Action) (b : Bridge)
    (run : (Bridge.start guestCid ports).exec as = some b)
    (chains : Run.Meets Bridge.step (fun b a => b.Each Local.Answered a ∧ b.RstPlaced a)
      (Bridge.start guestCid ports) as) :
    (∀ x, (b.stream x).Controlled) ∧ ∀ p ∈ b.resets, p.2 = true := by
  have answered := Run.Meets.weaken (fun _ _ met => And.left met) as chains
  have placed := Run.Meets.weaken (fun _ _ met => And.right met) as chains
  refine ⟨Bridge.exec_streams (fun _ _ _ controlled fine next => controlled.step fine next) ⟨nofun, nofun⟩
    answered run, ?_⟩
  have steps : ∀ (b : Bridge) (a : Action) (b' : Bridge), (∀ p ∈ b.resets, p.2 = true) → b.RstPlaced a →
      b.step a = some b' → ∀ p ∈ b'.resets, p.2 = true :=
    fun _ _ _ delivered placed next => Bridge.step_resets delivered placed next
  exact Run.exec_guarded steps as (fun _ listed => absurd listed List.not_mem_nil) placed run

def closeRun (response shutdown : Bool) : List Action :=
  [.guest (packetOf .request 9000 2222 4096 0) [] { dial := some 7, placed := response }, .peerClose 0] ++
    eventRound { pollIn := true, pollHup := true } ⟨true, shutdown, 4096⟩

theorem exec_controlled_close : ∃ b, (Bridge.start 3 [⟨2222, .outbound⟩]).exec (closeRun true true) =
    some b ∧ (∀ x, (b.stream x).Controlled) ∧ ∀ p ∈ b.resets, p.2 = true :=
  ⟨_, rfl, exec_controlled 3 [⟨2222, .outbound⟩] (closeRun true true) _ rfl (by decide +kernel)⟩

/-- The ring is empty when the end of the stream is read: the connection closes untold. -/
theorem control_lost : ∃ b, (Bridge.start 3 [⟨2222, .outbound⟩]).exec (closeRun true false) = some b ∧
    ¬ (b.stream 0).Controlled :=
  ⟨_, rfl, fun controlled => absurd (controlled.closing _ rfl rfl) (by decide)⟩

end Machinen.Vsock
