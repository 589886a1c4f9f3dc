import Machinen.Vsock.Projection

/-! Bytes from the host peer to the guest: all that a socket's peer wrote reaches the guest in
order and before a SHUTDOWN, for as long as no connection is torn down over bytes that the
bridge still holds or has not read. -/
namespace Machinen.Vsock

open Bytes Vmm

def delivered (sent : List Sent) : Bytes :=
  sent.flatMap fun p => if Op.ofCode p.hdr.op = .rw then p.body else []

theorem delivered_append (front back : List Sent) :
    delivered (front ++ back) = delivered front ++ delivered back :=
  List.flatMap_append

theorem delivered_place (s : Sock) (hdr : VsockHdr) (body : Bytes) (room : Nat) :
    delivered (s.place hdr body room).sent = delivered s.sent ++ if Op.ofCode hdr.op =
      .rw then body else [] := by
  rw [Sock.place, delivered_append]
  simp [delivered]

@[simp] theorem header_op (c : Connection) (guestCid : Nat) (op : Op) (len flags : Nat) :
    Op.ofCode (c.header guestCid op len flags).op = op := Op.ofCode_code op

def Sock.Last (s : Sock) : Prop :=
  ∀ k p, s.sent[k]? = some p → Op.ofCode p.hdr.op = .shutdown →
    s.ended = true ∧ delivered (s.sent.take k) = s.written

variable {s s' : Sock} {guestCid : Nat} {c : Connection}

theorem Sock.Last.place (last : s.Last) {hdr : VsockHdr} {body : Bytes} {room : Nat}
    (all : Op.ofCode hdr.op = .shutdown → s.ended = true ∧ delivered s.sent = s.written) :
    (s.place hdr body room).Last := by
  intro k p here shut
  unfold Sock.place at here ⊢
  rcases Nat.lt_or_ge k s.sent.length with old | new
  · rw [List.getElem?_append_left old] at here
    rw [List.take_append_of_le_length (Nat.le_of_lt old)]
    exact last k p here shut
  · rw [List.getElem?_append_right new] at here
    have first : k - s.sent.length = 0 := by
      by_contra later
      rw [List.getElem?_eq_none (by simp; omega)] at here
      exact nomatch here
    rw [first] at here
    cases here
    have whole : k = s.sent.length := by omega
    subst whole
    rw [List.take_left]
    exact all shut

structure Held (c : Connection) (s : Sock) : Prop where
  live : s.gone = none
  last : s.Last
  bytes : s.written = delivered s.sent ++ c.pending ++ s.unread

theorem Pumped.held {env : Pump} {c' : Connection}
    (pumped : Pumped guestCid env c s c' s') (held : Held c s) (nothing : c.pending = []) : Held c' s' := by
  have bytes := held.bytes
  rw [nothing, List.append_nil] at bytes
  cases pumped with
  | full room => exact ⟨held.live, held.last, held.bytes⟩
  | again => exact held
  | eof room drained ended count =>
    have all : delivered s.sent = s.written := by rw [bytes, drained, List.append_nil]
    cases env.next with
    | false => exact ⟨held.live, held.last, held.bytes⟩
    | true =>
      refine ⟨held.live, held.last.place fun _ => ⟨ended, all⟩, ?_⟩
      rw [Sock.inject, if_pos rfl, delivered_place, header_op, if_neg (by decide), List.append_nil]
      exact held.bytes
  | data payload rest room unread fits =>
    have last : ({ s with unread := rest } : Sock).Last := held.last
    refine ⟨held.live, last.place fun shut =>
      absurd (header_op c guestCid .rw payload.length 0 ▸ shut) (by decide), ?_⟩
    rw [delivered_place, header_op, if_pos rfl]
    change s.written = delivered s.sent ++ payload ++ c.pending ++ rest
    rw [bytes, unread, nothing, List.append_nil, List.append_assoc]
  | parked payload rest room unread fits =>
    refine ⟨held.live, held.last, ?_⟩
    change s.written = delivered s.sent ++ payload ++ rest
    rw [bytes, unread, List.append_assoc]

theorem Drained.held {env : Pump} {c' : Connection}
    (drained : Drained guestCid env c s c' s') (held : Held c s) : Held c' s' := by
  cases drained with
  | same => exact held
  | full room => exact ⟨held.live, held.last, held.bytes⟩
  | direct open_ nothing pumped => exact pumped.held held nothing
  | flushed open_ room flush pumped =>
    refine pumped.held ⟨held.live, held.last.place fun shut => ?_, ?_⟩ rfl
    · exact absurd (header_op c guestCid .rw c.pending.length 0 ▸ shut) (by decide)
    · rw [delivered_place, header_op, if_pos rfl]
      change s.written = delivered s.sent ++ c.pending ++ [] ++ s.unread
      rw [held.bytes, List.append_nil]

theorem Told.held {c' : Connection} (told : Told guestCid c s c' s')
    (held : Held c s) : Held c' s' := by
  cases told with
  | missed => exact held
  | placed =>
    refine ⟨held.live, held.last.place fun shut => ?_, ?_⟩
    · exact absurd (header_op c guestCid .creditUpdate 0 0 ▸ shut) (by decide)
    · rw [delivered_place, header_op, if_neg (by decide), List.append_nil]
      exact held.bytes

namespace Stream

def Drained (s : Stream) : Prop := (∀ c ∈ s.conn, c.pending = []) ∧ s.sock.unread = []

instance (s : Stream) : Decidable s.Drained := inferInstanceAs (Decidable (_ ∧ _))

structure Ordered (s : Stream) : Prop where
  front : delivered s.sock.sent <+: s.sock.written
  last : s.sock.Last
  held : ∀ c, s.conn = some c → Held c s.sock

structure Integral (s : Stream) : Prop extends s.Ordered where
  complete : s.sock.gone ≠ none → s.sock.gone ≠ some .reset → delivered s.sock.sent = s.sock.written

end Stream

theorem Held.ordered (held : Held c s) : Stream.Ordered ⟨some c, s⟩ where
  front := ⟨c.pending ++ s.unread, by rw [held.bytes, List.append_assoc]⟩
  last := held.last
  held d here := by
    cases here
    exact held

namespace Stream

theorem Ordered.write {s : Stream} (ordered : s.Ordered) (open_ : s.sock.ended = false)
    (live : s.sock.gone = none) (data : Bytes) : Ordered
      { s with sock := { s.sock with written := s.sock.written ++ data, unread := s.sock.unread ++ data } } := by
  -- No SHUTDOWN was sent: the peer has not closed.
  have last : Sock.Last
    { s.sock with written := s.sock.written ++ data, unread := s.sock.unread ++ data } := by
    intro k p here shut
    have closed := (ordered.last k p here shut).1
    rw [open_] at closed
    exact nomatch closed
  refine ⟨ordered.front.trans (List.prefix_append _ _), last, fun c here => ⟨live, last, ?_⟩⟩
  change s.sock.written ++ data = delivered s.sock.sent ++ c.pending ++ (s.sock.unread ++ data)
  rw [(ordered.held c here).bytes, List.append_assoc]

theorem Ordered.accepted (guestCid guestPort hostPort sock : Nat) (new : Accepted) (placed : Bool) :
    (Stream.accepted guestCid guestPort hostPort sock new placed).Ordered := by
  unfold Stream.accepted
  cases placed with
  | true =>
    refine Held.ordered ⟨rfl, Sock.Last.place (s :=
      { written := new.early, unread := new.early, ended := new.ended })
      nofun fun shut => absurd (Op.ofCode_code .request ▸ shut) (by decide), ?_⟩
    rw [delivered_place, header_op, if_neg (by decide)]
    rfl
  | false => exact ⟨List.nil_prefix, nofun, nofun⟩

theorem Ordered.dialed (guestCid : Nat) (hdr : VsockHdr) (fd sock : Nat) (placed : Bool) :
    (Stream.dialed guestCid hdr fd sock placed).Ordered := by
  unfold Stream.dialed
  refine Held.ordered ?_
  cases placed with
  | false => exact ⟨rfl, nofun, rfl⟩
  | true =>
    exact ⟨rfl, Sock.Last.place (s := { dialed := true }) nofun fun shut =>
      absurd (Op.ofCode_code .response ▸ shut) (by decide), rfl⟩

theorem Ordered.packet {env : Reception} {hdr : VsockHdr} {body : Bytes} {after : Option Connection}
    (received : Received guestCid env hdr body c s after s') (held : Held c s) : Ordered ⟨after, s'⟩ := by
  cases received with
  | response op => exact Held.ordered ⟨held.live, held.last, held.bytes⟩
  | rw op told => exact (told.held ⟨held.live, held.last, held.bytes⟩).ordered
  | shutdown op => exact ⟨held.ordered.front, held.last, nofun⟩
  | rst op => exact ⟨held.ordered.front, held.last, nofun⟩
  | told op told => exact (told.held ⟨held.live, held.last, held.bytes⟩).ordered
  | other op => exact Held.ordered ⟨held.live, held.last, held.bytes⟩

theorem Ordered.step {s t : Stream} {l : Local} (ordered : s.Ordered)
    (next : Stream.step guestCid s l = some t) : t.Ordered := by
  cases l with
  | accept guestPort hostPort sock new placed =>
    cases next
    exact .accepted guestCid guestPort hostPort sock new placed
  | dial hdr fd sock placed =>
    cases next
    exact .dialed guestCid hdr fd sock placed
  | write data =>
    obtain ⟨⟨open_, live⟩, rfl⟩ := Run.guarded next
    exact ordered.write open_ live data
  | finish =>
    obtain ⟨live, rfl⟩ := Run.guarded next
    have last : Sock.Last { s.sock with ended := true } :=
      fun k p here shut => ⟨rfl, (ordered.last k p here shut).2⟩
    exact ⟨ordered.front, last, fun c here => ⟨live, last, (ordered.held c here).bytes⟩⟩
  | drain env =>
    obtain ⟨c, here, rfl⟩ := Option.map_eq_some_iff.mp next
    exact ((drain_drained guestCid env c s.sock).held (ordered.held c here)).ordered
  | hangUp =>
    obtain ⟨c, here, rfl⟩ := Option.map_eq_some_iff.mp next
    exact ⟨ordered.front, ordered.last, nofun⟩
  | packet hdr body env =>
    obtain ⟨c, here, mapped⟩ := Option.bind_eq_some_iff.mp next
    obtain ⟨after, received, rfl⟩ := Option.map_eq_some_iff.mp mapped
    exact .packet (packet_received guestCid received) (ordered.held c here)

end Stream

/-- No connection is torn down over bytes that the guest has not received: not by a hang-up
without data to read, not by the guest's SHUTDOWN, not for want of a chain for the REQUEST. -/
def Local.Gentle (s : Stream) : Local → Prop
  | .accept _ _ _ new placed => placed = false → new.early = []
  | .hangUp => s.Drained
  | .packet hdr _ _ => Op.ofCode hdr.op = .shutdown → s.Drained
  | .dial .. | .write _ | .finish | .drain _ => True

instance (s : Stream) : (l : Local) → Decidable (l.Gentle s)
  | .accept _ _ _ new placed => inferInstanceAs (Decidable (placed = false → new.early = []))
  | .hangUp => inferInstanceAs (Decidable s.Drained)
  | .packet hdr _ _ => inferInstanceAs (Decidable (Op.ofCode hdr.op = .shutdown → s.Drained))
  | .dial .. | .write _ | .finish | .drain _ => isTrue trivial

namespace Stream

theorem Ordered.complete_of_drained {s : Stream} (ordered : s.Ordered)
    (here : s.conn = some c) (drained : s.Drained) : delivered s.sock.sent = s.sock.written := by
  rw [(ordered.held c here).bytes, drained.1 c here, drained.2, List.append_nil, List.append_nil]

theorem Integral.step {s t : Stream} {l : Local} (sound : s.Integral) (gentle : l.Gentle s)
    (next : Stream.step guestCid s l = some t) : t.Integral := by
  have ordered := sound.toOrdered.step next
  refine ⟨ordered, ?_⟩
  intro gone unreset
  -- A connection that is still there is not gone.
  have dead : t.conn = none := by
    by_contra alive
    obtain ⟨c, here⟩ := Option.ne_none_iff_exists'.mp alive
    exact gone (ordered.held c here).live
  cases l with
  | accept guestPort hostPort sock new placed =>
    cases next
    cases placed with
    | true => exact nomatch dead
    | false => exact (gentle rfl).symm
  | dial => cases next; exact nomatch dead
  | write data =>
    obtain ⟨⟨-, live⟩, rfl⟩ := Run.guarded next
    exact absurd live gone
  | finish =>
    obtain ⟨live, rfl⟩ := Run.guarded next
    exact absurd live gone
  | drain env =>
    obtain ⟨c, -, rfl⟩ := Option.map_eq_some_iff.mp next
    exact nomatch dead
  | hangUp =>
    obtain ⟨c, here, rfl⟩ := Option.map_eq_some_iff.mp next
    exact sound.complete_of_drained here gentle
  | packet hdr body env =>
    obtain ⟨c, here, mapped⟩ := Option.bind_eq_some_iff.mp next
    obtain ⟨after, received, rfl⟩ := Option.map_eq_some_iff.mp mapped
    obtain ⟨after, s'⟩ := after
    cases packet_received guestCid received with
    | shutdown op => exact sound.complete_of_drained here (gentle op)
    | rst op => exact absurd rfl unreset
    | response | rw | told | other => exact nomatch dead

theorem blank_integral : Integral ⟨none, {}⟩ :=
  ⟨⟨List.nil_prefix, nofun, nofun⟩, fun gone => absurd rfl gone⟩

end Stream

/-- The peer writes and closes. The guest's window is open for a while, and at the end `poll`
reports no more than the hang-up. -/
def hangUpRun (early : Bytes) (bufAlloc : Nat) : List Action :=
  acceptRound 5000 [] ⟨7, early, true⟩ true ++ [.guest (packetOf .response 5000 1024 bufAlloc 0) [] {}] ++
    eventRound { pollIn := true, pollHup := true } ⟨true, true, 4096⟩ ++
    eventRound { pollIn := true, pollHup := true } ⟨true, true, 4096⟩ ++
    eventRound { pollHup := true } ⟨true, true, 4096⟩

/-- Whatever happens, the guest receives of every connection a prefix of what the peer
wrote, a SHUTDOWN comes last, and what is missing is held while there is a connection. -/
theorem exec_in_order (guestCid : Nat) (ports : List PortMap) (as : List Action) (b : Bridge)
    (run : (Bridge.start guestCid ports).exec as = some b) (x : Nat) : (b.stream x).Ordered :=
  Bridge.exec_streams_all (fun _ _ _ ordered next => ordered.step next) Stream.blank_integral.toOrdered run
    x

/-- The second byte waits for credit when the socket is closed over it. -/
theorem exec_in_order_hangUp :
    ∃ b, (Bridge.start 3 [⟨5000, .inbound⟩]).exec (hangUpRun [1, 2] 1) = some b ∧ (b.stream 0).Ordered :=
  ⟨_, rfl, exec_in_order 3 [⟨5000, .inbound⟩] (hangUpRun [1, 2] 1) _ rfl 0⟩

/-- In every run that tears no connection down over bytes that are on their way, the guest
has received all of them when the connection is gone. -/
theorem exec_integral (guestCid : Nat) (ports : List PortMap) (as : List Action) (b : Bridge)
    (run : (Bridge.start guestCid ports).exec as = some b)
    (gentle : Run.Meets Bridge.step (Bridge.Each Local.Gentle) (Bridge.start guestCid ports) as) (x : Nat) :
    (b.stream x).Integral :=
  Bridge.exec_streams (fun _ _ _ sound fine next => sound.step fine next) Stream.blank_integral gentle run x

theorem exec_integral_hangUp :
    ∃ b, (Bridge.start 3 [⟨5000, .inbound⟩]).exec (hangUpRun [1, 2] 4096) = some b ∧
      (b.stream 0).Integral :=
  ⟨_, rfl, exec_integral 3 [⟨5000, .inbound⟩] (hangUpRun [1, 2] 4096) _ rfl (by decide +kernel) 0⟩

/-- The byte that waits is lost. -/
theorem integral_lost :
    ∃ b, (Bridge.start 3 [⟨5000, .inbound⟩]).exec (hangUpRun [1, 2] 1) = some b ∧
      ¬ (b.stream 0).Integral := by
  refine ⟨_, rfl, fun sound => ?_⟩
  have all := sound.complete (by decide) (by decide)
  exact absurd all (by decide)

end Machinen.Vsock
