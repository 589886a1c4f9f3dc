import Machinen.Vmm.Virtio

/-! One connection of the vsock bridge and the host socket behind it: what the bridge does
when the socket can be read and when the guest sends a packet. The outside world decides
what the socket's calls return and whether the receive ring has a chain for a packet. -/
namespace Machinen.Vsock

open Bytes Vmm

def hostCid : Nat := 2
def advertisedBufAlloc : Nat := 256 * 1024
def txEagainStallsMax : Nat := 50
def streamType : Nat := 1
def shutdownBoth : Nat := 3

inductive Op where
  | request | response | rst | shutdown | rw | creditUpdate | creditRequest | other
  deriving DecidableEq, Repr

namespace Op

def ofCode : Nat → Op
  | 1 => .request
  | 2 => .response
  | 3 => .rst
  | 4 => .shutdown
  | 5 => .rw
  | 6 => .creditUpdate
  | 7 => .creditRequest
  | _ => .other

def code : Op → Nat
  | .request => 1
  | .response => 2
  | .rst => 3
  | .shutdown => 4
  | .rw => 5
  | .creditUpdate => 6
  | .creditRequest => 7
  | .other => 0

@[simp] theorem ofCode_code (op : Op) : ofCode op.code = op := by cases op <;> rfl

end Op

/-- `a -% b` on 32-bit counters. -/
def sub32 (a b : Nat) : Nat := (((a : Int) - b) % 2 ^ 32).toNat

/-- `a +% b` on 32-bit counters. -/
def add32 (a b : Nat) : Nat := (a + b) % 2 ^ 32

inductive ConnState where
  | connecting | established | closing
  deriving DecidableEq, Repr

/-- `sock` names the socket that the descriptor is open on; a descriptor is used again, a
socket is not. `pending` is `pending_rx_buf` up to its length. -/
structure Connection where
  guestPort : Nat
  hostPort : Nat
  fd : Nat
  sock : Nat
  state : ConnState
  fwdCnt : Nat := 0
  bytesFromPeer : Nat := 0
  bytesToPeer : Nat := 0
  peerBufAlloc : Nat := 0
  peerFwdCnt : Nat := 0
  paused : Bool := false
  lastCreditFwdCnt : Nat := 0
  pending : Bytes := []
  deriving DecidableEq, Repr

deriving instance DecidableEq, Repr for VsockHdr

/-- A packet that was placed in the guest's receive ring, and what `peer_room` said when
it was built. -/
structure Sent where
  hdr : VsockHdr
  body : Bytes
  room : Nat
  deriving DecidableEq, Repr

inductive Gone where
  | refused | hungUp | reset | shutdown
  deriving DecidableEq, Repr

/-- A host socket with all that has happened to it: what its peer wrote, what of that the
bridge has not read, what the bridge wrote, and the packets from and to the guest. -/
structure Sock where
  dialed : Bool := false
  written : Bytes := []
  unread : Bytes := []
  ended : Bool := false
  got : Bytes := []
  sent : List Sent := []
  routed : List (VsockHdr × Bytes) := []
  gone : Option Gone := none
  deriving DecidableEq, Repr

inductive ReadResult where
  | eof | again
  | data (bytes : Bytes)

namespace Sock

/-- A read of at most `cap` bytes; the kernel returns no more than `count` of them, and an
error where that is 0. -/
def read (s : Sock) (cap count : Nat) : ReadResult :=
  if count = 0 then .again
  else if s.unread = [] then if s.ended then .eof else .again
  else .data (s.unread.take (min count cap))

def take (s : Sock) (n : Nat) : Sock := { s with unread := s.unread.drop n }

def place (s : Sock) (hdr : VsockHdr) (body : Bytes) (room : Nat) : Sock :=
  { s with sent := s.sent ++ [⟨hdr, body, room⟩] }

/-- `inject_rx`, which does nothing where the ring has no chain for the packet. -/
def inject (s : Sock) (placed : Bool) (hdr : VsockHdr) (body : Bytes) (room : Nat) : Sock :=
  if placed then s.place hdr body room else s

def route (s : Sock) (hdr : VsockHdr) (body : Bytes) : Sock :=
  { s with routed := s.routed ++ [(hdr, body)] }

def deliver (s : Sock) (bytes : Bytes) : Sock := { s with got := s.got ++ bytes }

end Sock

/-- How many more bytes the peer accepts; before it has told, a fixed number. -/
def peerRoom (c : Connection) : Nat :=
  if c.peerBufAlloc = 0 then 64 * 1024
  else
    let inflight := sub32 c.bytesToPeer c.peerFwdCnt
    if c.peerBufAlloc ≤ inflight then 0 else c.peerBufAlloc - inflight

def Connection.header (c : Connection) (guestCid : Nat) (op : Op) (len flags : Nat) : VsockHdr where
  srcCid := hostCid
  dstCid := guestCid
  srcPort := c.hostPort
  dstPort := c.guestPort
  len := len
  type := streamType
  op := op.code
  flags := flags
  bufAlloc := advertisedBufAlloc
  fwdCnt := c.fwdCnt

/-- What the world does during a drain: whether a chain takes the pending bytes, whether one
takes the packet after them, and how much a read returns. -/
structure Pump where
  flush : Bool
  next : Bool
  count : Nat
  deriving DecidableEq, Repr

section Drain

variable (guestCid : Nat) (env : Pump)

/-- The second half of `drain_connection`: one read, and the packet it makes. -/
def pump (c : Connection) (s : Sock) : Connection × Sock :=
  if peerRoom c = 0 then ({ c with paused := true }, s)
  else
    match s.read (min rxBodyPerPacketMax (peerRoom c)) env.count with
    | .eof =>
      ({ c with state := .closing },
        s.inject env.next (c.header guestCid .shutdown 0 shutdownBoth) [] (peerRoom c))
    | .again => (c, s)
    | .data payload =>
      let rest := s.take payload.length
      if env.next then
        ({ c with bytesToPeer := add32 c.bytesToPeer payload.length },
          rest.place (c.header guestCid .rw payload.length 0) payload (peerRoom c))
      else ({ c with pending := payload }, rest)

/-- `drain_connection`: bytes that were read before and found no chain go first. -/
def drainConnection (c : Connection) (s : Sock) : Connection × Sock :=
  if c.state ≠ .established then (c, s)
  else if c.pending = [] then pump guestCid env c s
  else if peerRoom c = 0 then ({ c with paused := true }, s)
  else if env.flush then
    pump guestCid env { c with bytesToPeer := add32 c.bytesToPeer c.pending.length, pending := [] }
      (s.place (c.header guestCid .rw c.pending.length 0) c.pending (peerRoom c))
  else (c, s)

end Drain

/-- What one `write` returns: a number of bytes, which may be 0, or an error. -/
inductive WriteResult where
  | wrote (n : Nat)
  | again
  deriving DecidableEq, Repr

/-- The write loop, with the stalls so far; what it leaves unwritten. A `write` never takes
more than it is given, and one that is not listed fails. -/
def writeLoop : List WriteResult → Nat → Bytes → Bytes
  | [], _, remaining => remaining
  | result :: results, stalls, remaining =>
    if remaining = [] ∨ txEagainStallsMax < stalls then remaining
    else match result with
      | .wrote n => if n = 0 then remaining else writeLoop results stalls (remaining.drop n)
      | .again => writeLoop results (stalls + 1) remaining

/-- What the world does while a guest packet is handled: what `connect` gives, what the
writes return, and whether the ring has a chain for the answer. -/
structure Reception where
  dial : Option Nat := none
  writes : List WriteResult := []
  placed : Bool := false
  deriving DecidableEq, Repr

/-- Every packet of the guest tells its window; a window that opens ends the pause. -/
def Connection.credit (c : Connection) (hdr : VsockHdr) : Connection :=
  let told := { c with peerBufAlloc := hdr.bufAlloc, peerFwdCnt := hdr.fwdCnt }
  { told with paused := c.paused && !(decide (peerRoom c = 0) && decide (0 < peerRoom told)) }

section Packets

variable (guestCid : Nat) (env : Reception)

/-- None where the assertion on the host port fails. -/
def sendCreditUpdate (c : Connection) (s : Sock) : Option (Connection × Sock) :=
  if c.hostPort = 0 then none
  else if env.placed then
    some ({ c with lastCreditFwdCnt := c.fwdCnt },
      s.place (c.header guestCid .creditUpdate 0 0) [] (peerRoom c))
  else some (c, s)

/-- RW: all of the body counts as received, whatever the write loop leaves. -/
def receiveRw (body : Bytes) (c : Connection) (s : Sock) : Option (Connection × Sock) :=
  let remaining := writeLoop env.writes 0 body
  let total := add32 c.bytesFromPeer body.length
  let c := { c with bytesFromPeer := total, fwdCnt := total }
  let s := s.deliver (body.take (body.length - remaining.length))
  if advertisedBufAlloc / 2 ≤ sub32 c.fwdCnt c.lastCreditFwdCnt then sendCreditUpdate guestCid env c s
  else some (c, s)

/-- What becomes of a connection when a packet is routed to it: none where the bridge traps,
and no connection where it is closed. -/
def receivePacket (hdr : VsockHdr) (body : Bytes) (c : Connection) (s : Sock) :
    Option (Option Connection × Sock) :=
  let c := c.credit hdr
  let s := s.route hdr body
  match Op.ofCode hdr.op with
  | .response => some (some { c with state := .established }, s)
  | .rw => (receiveRw guestCid env body c s).map fun after => (some after.1, after.2)
  | .shutdown => some (none, { s with gone := some .shutdown })
  | .rst => some (none, { s with gone := some .reset })
  | .creditRequest => (sendCreditUpdate guestCid env c s).map fun after => (some after.1, after.2)
  | .creditUpdate | .request | .other => some (some c, s)

end Packets

section Outcomes

variable (guestCid : Nat)

inductive Pumped (env : Pump) (c : Connection) (s : Sock) : Connection → Sock → Prop where
  | full (room : peerRoom c = 0) : Pumped env c s { c with paused := true } s
  | again : Pumped env c s c s
  | eof (room : peerRoom c ≠ 0) (drained : s.unread = []) (ended : s.ended = true) (count : env.count ≠ 0) :
      Pumped env c s { c with state := .closing }
        (s.inject env.next (c.header guestCid .shutdown 0 shutdownBoth) [] (peerRoom c))
  | data (payload rest : Bytes) (room : peerRoom c ≠ 0) (unread : s.unread = payload ++ rest)
      (fits : payload.length ≤ peerRoom c) :
      Pumped env c s { c with bytesToPeer := add32 c.bytesToPeer payload.length }
        ({ s with unread := rest }.place (c.header guestCid .rw payload.length 0) payload (peerRoom c))
  | parked (payload rest : Bytes) (room : peerRoom c ≠ 0) (unread : s.unread = payload ++ rest)
      (fits : payload.length ≤ peerRoom c) :
      Pumped env c s { c with pending := payload } { s with unread := rest }

theorem pump_pumped (env : Pump) (c : Connection) (s : Sock) :
    Pumped guestCid env c s (pump guestCid env c s).1 (pump guestCid env c s).2 := by
  unfold pump
  by_cases room : peerRoom c = 0
  · rw [if_pos room]
    exact .full room
  · rw [if_neg room]
    cases result : s.read (min rxBodyPerPacketMax (peerRoom c)) env.count with
    | again => exact .again
    | eof =>
      unfold Sock.read at result
      split at result
      · exact nomatch result
      · rename_i count
        split at result
        · rename_i drained
          split at result
          · rename_i ended
            exact .eof room drained ended count
          · exact nomatch result
        · exact nomatch result
    | data payload =>
      have taken : ∃ n ≤ min rxBodyPerPacketMax (peerRoom c), payload = s.unread.take n := by
        unfold Sock.read at result
        split at result
        · exact nomatch result
        · split at result
          · split at result <;> exact nomatch result
          · cases result
            exact ⟨_, Nat.min_le_right .., rfl⟩
      obtain ⟨n, within, rfl⟩ := taken
      have fits : (s.unread.take n).length ≤ peerRoom c :=
        Nat.le_trans (List.length_take_le n s.unread) (Nat.le_trans within (Nat.min_le_right ..))
      have unread : s.unread = s.unread.take n ++ s.unread.drop (s.unread.take n).length := by
        rcases Nat.le_total n s.unread.length with inside | beyond
        · rw [List.length_take_of_le inside, List.take_append_drop]
        · rw [List.take_of_length_le beyond, List.drop_length, List.append_nil]
      cases env.next with
      | true => exact .data _ _ room unread fits
      | false => exact .parked _ _ room unread fits

/-- What a drain can lead to: bytes that are held back go first. -/
inductive Drained (env : Pump) (c : Connection) (s : Sock) : Connection → Sock → Prop where
  | same : Drained env c s c s
  | full (room : peerRoom c = 0) : Drained env c s { c with paused := true } s
  | direct (open_ : c.state = .established) (nothing : c.pending = []) {c' : Connection} {s' : Sock}
      (pumped : Pumped guestCid env c s c' s') :
      Drained env c s c' s'
  | flushed (open_ : c.state = .established) (room : peerRoom c ≠ 0) (flush : env.flush = true)
      {c' : Connection} {s' : Sock}
      (pumped : Pumped guestCid env
        { c with bytesToPeer := add32 c.bytesToPeer c.pending.length, pending := [] }
        (s.place (c.header guestCid .rw c.pending.length 0) c.pending (peerRoom c)) c' s') : Drained env c s
          c' s'

theorem drain_drained (env : Pump) (c : Connection) (s : Sock) :
    Drained guestCid env c s (drainConnection guestCid env c s).1 (drainConnection guestCid env c s).2 := by
  unfold drainConnection
  split
  · exact .same
  · rename_i open_
    have open_ := not_not.mp open_
    split
    · rename_i nothing
      exact .direct open_ nothing (pump_pumped guestCid env c s)
    · split
      · rename_i room
        exact .full room
      · split
        · rename_i room flush
          exact .flushed open_ room flush (pump_pumped guestCid env _ _)
        · exact .same

inductive Told (c : Connection) (s : Sock) : Connection → Sock → Prop where
  | placed : Told c s { c with lastCreditFwdCnt := c.fwdCnt }
      (s.place (c.header guestCid .creditUpdate 0 0) [] (peerRoom c))
  | missed : Told c s c s

theorem credit_told {env : Reception} {c c' : Connection} {s s' : Sock}
    (sent : sendCreditUpdate guestCid env c s = some (c', s')) : Told guestCid c s c' s' := by
  unfold sendCreditUpdate at sent
  split at sent
  · exact nomatch sent
  · split at sent
    · cases sent
      exact .placed
    · cases sent
      exact .missed

def Connection.receive (c : Connection) (n : Nat) : Connection :=
  { c with bytesFromPeer := add32 c.bytesFromPeer n, fwdCnt := add32 c.bytesFromPeer n }

inductive Received (env : Reception) (hdr : VsockHdr) (body : Bytes) (c : Connection) (s : Sock) :
    Option Connection → Sock → Prop where
  | response (op : Op.ofCode hdr.op = .response) :
      Received env hdr body c s (some { c.credit hdr with state := .established }) (s.route hdr body)
  | rw (op : Op.ofCode hdr.op = .rw) {c' : Connection} {s' : Sock}
      (told : Told guestCid ((c.credit hdr).receive body.length)
        ((s.route hdr body).deliver (body.take (body.length - (writeLoop env.writes 0 body).length))) c'
          s') :
      Received env hdr body c s (some c') s'
  | shutdown (op : Op.ofCode hdr.op = .shutdown) :
      Received env hdr body c s none { s.route hdr body with gone := some .shutdown }
  | rst (op : Op.ofCode hdr.op = .rst) : Received env hdr body c s none
      { s.route hdr body with gone := some .reset }
  | told (op : Op.ofCode hdr.op = .creditRequest) {c' : Connection} {s' : Sock}
      (told : Told guestCid (c.credit hdr) (s.route hdr body) c' s') :
      Received env hdr body c s (some c') s'
  | other (op : Op.ofCode hdr.op ≠ .rw) : Received env hdr body c s (some (c.credit hdr)) (s.route hdr body)

theorem packet_received {env : Reception} {hdr : VsockHdr} {body : Bytes} {c : Connection} {s : Sock}
    {after : Option Connection × Sock} (received : receivePacket guestCid env hdr body c s = some after) :
    Received guestCid env hdr body c s after.1 after.2 := by
  unfold receivePacket at received
  dsimp only at received
  split at received
  · rename_i op
    cases received
    exact .response op
  · rename_i op
    obtain ⟨⟨c', s'⟩, counted, rfl⟩ := Option.map_eq_some_iff.mp received
    refine .rw op ?_
    unfold receiveRw at counted
    dsimp only at counted
    split at counted
    · exact credit_told guestCid counted
    · cases counted
      exact .missed
  · rename_i op
    cases received
    exact .shutdown op
  · rename_i op
    cases received
    exact .rst op
  · rename_i op
    obtain ⟨⟨c', s'⟩, sent, rfl⟩ := Option.map_eq_some_iff.mp received
    exact .told op (credit_told guestCid sent)
  all_goals
    rename_i op
    cases received
    exact .other (by rw [op]; decide)

end Outcomes

end Machinen.Vsock
