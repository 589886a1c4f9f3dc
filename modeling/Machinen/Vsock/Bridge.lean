import Machinen.Lib.Run
import Machinen.Vsock.Connection

/-! The vsock bridge: the poll thread with its poll set, and the guest's packets, which the
vCPU thread hands over. Both hold the lock for the whole of each step. Host peers and the
operating system's choice of descriptors come in between as they like. -/
namespace Machinen.Vsock

open Bytes Vmm

def bridgeConnsMax : Nat := 256
def maxPayload : Nat := 64 * 1024

inductive Direction where
  | inbound | outbound
  deriving DecidableEq, Repr

structure PortMap where
  guestPort : Nat
  direction : Direction
  deriving DecidableEq, Repr

structure Revents where
  pollIn : Bool := false
  pollErr : Bool := false
  pollHup : Bool := false
  deriving DecidableEq, Repr

/-- An entry of the poll set for a connection. `seen` is the socket that the descriptor was
open on when `poll` was called: it is what the events are about. -/
structure Polled where
  fd : Nat
  wantsIn : Bool
  seen : Option Nat := none
  revents : Revents := {}
  deriving DecidableEq, Repr

/-- Where the poll thread is. A `ready` round has inbound listeners still to accept from,
as guest ports, and connections still to look at. -/
inductive Round where
  | idle
  | built (set : List Polled)
  | polling (set : List Polled)
  | ready (listeners : List Nat) (set : List Polled)
  deriving DecidableEq, Repr

/-- `resets` lists the packets that were answered with a reset and whether the ring took it;
`applied` lists what events were about and the socket of the connection they were acted on. -/
structure Bridge where
  guestCid : Nat := 3
  ports : List PortMap
  conns : List Connection := []
  nextHostPort : Nat := 1024
  socks : Nat → Sock := fun _ => {}
  nextSock : Nat := 0
  round : Round := .idle
  resets : List (VsockHdr × Bool) := []
  applied : List (Option Nat × Nat) := []
  trapped : Bool := false

def swapRemove {A : Type} (as : List A) (i : Nat) : List A :=
  match as.getLast? with
  | none => []
  | some last => (as.set i last).dropLast

namespace Bridge

variable (b : Bridge)

def trap : Bridge := { b with trapped := true }

def setSock (x : Nat) (s : Sock) : Bridge := { b with socks := Function.update b.socks x s }

def setConn (k : Nat) (c : Connection) (s : Sock) : Bridge :=
  { b with conns := b.conns.set k c }.setSock c.sock s

def removeConn (k : Nat) (x : Nat) (s : Sock) : Bridge :=
  { b with conns := swapRemove b.conns k }.setSock x s

def closeConnection (k : Nat) (why : Gone) : Bridge :=
  match b.conns[k]? with
  | none => b
  | some c => b.removeConn k c.sock { b.socks c.sock with gone := some why }

/-- `conns_push` of a connection on a new socket. -/
def pushConn (c : Connection) (s : Sock) : Bridge :=
  { b with conns := b.conns ++ [c], nextSock := b.nextSock + 1 }.setSock b.nextSock s

def Free (fd : Nat) : Prop := ∀ c ∈ b.conns, c.fd ≠ fd

instance (fd : Nat) : Decidable (b.Free fd) := List.decidableBAll _ _

def findOutbound (hostPort : Nat) : Bool :=
  b.ports.any fun pm => pm.direction == .outbound && pm.guestPort == hostPort

def inboundPorts : List Nat := (b.ports.filter fun pm => pm.direction == .inbound).map PortMap.guestPort

def sendRst (hdr : VsockHdr) (placed : Bool) : Bridge := { b with resets := b.resets ++ [(hdr, placed)] }

/-- `start_connection`: a REQUEST that finds no chain closes the connection at once. The peer
may have written and closed before it was accepted. -/
def startConnection (guestPort fd : Nat) (early : Bytes) (ended placed : Bool) : Bridge :=
  if guestPort = 0 ∨ 2 ^ 32 ≤ b.nextHostPort + 1 then b.trap
  else
    let c : Connection :=
      { guestPort, hostPort := b.nextHostPort, fd, sock := b.nextSock, state := .connecting }
    let s : Sock := { written := early, unread := early, ended }
    let b := { b with nextHostPort := b.nextHostPort + 1 }
    if bridgeConnsMax ≤ b.conns.length then b
    else if placed then b.pushConn c (s.place (c.header b.guestCid .request 0 0) [] (peerRoom c))
    else { b with nextSock := b.nextSock + 1 }.setSock b.nextSock { s with gone := some .refused }

def drainAt (env : Pump) (k : Nat) : Bridge :=
  match b.conns[k]? with
  | none => b
  | some c =>
    let after := drainConnection b.guestCid env c (b.socks c.sock)
    b.setConn k after.1 after.2

def retryFrom (env : Nat → Pump) : Nat → Nat → Bridge → Bridge
  | 0, _, b => b
  | more + 1, k, b =>
    retryFrom env more (k + 1)
      (if b.conns[k]?.any fun c => c.pending ≠ [] then b.drainAt (env k) k else b)

def retry (env : Nat → Pump) : Bridge := retryFrom env b.conns.length 0 b

def route (hdr : VsockHdr) : Option Nat :=
  b.conns.findIdx? fun c => c.guestPort == hdr.srcPort && c.hostPort == hdr.dstPort

/-- A packet of no known connection: a REQUEST to a mapped port is dialed. -/
def receiveUnknown (hdr : VsockHdr) (env : Reception) : Bridge :=
  if Op.ofCode hdr.op = .request ∧ b.findOutbound hdr.dstPort = true then
    match env.dial with
    | none => b.sendRst hdr env.placed
    | some fd =>
      if bridgeConnsMax ≤ b.conns.length then b.sendRst hdr env.placed
      else
        let c : Connection :=
          { guestPort := hdr.srcPort, hostPort := hdr.dstPort, fd, sock := b.nextSock, state := .established
            peerBufAlloc := hdr.bufAlloc, peerFwdCnt := hdr.fwdCnt }
        let response : VsockHdr := { c.header b.guestCid .response 0 0 with type := hdr.type }
        b.pushConn c (({ dialed := true } : Sock).inject env.placed response [] (peerRoom c))
  else b.sendRst hdr env.placed

/-- `dispatch_guest_packet`. -/
def dispatchGuestPacket (hdr : VsockHdr) (body : Bytes) (env : Reception) : Bridge :=
  match b.route hdr with
  | none => b.receiveUnknown hdr env
  | some k =>
    match b.conns[k]? with
    | none => b
    | some c =>
      match receivePacket b.guestCid env hdr body c (b.socks c.sock) with
      | none => b.trap
      | some (some c', s) => b.setConn k c' s
      | some (none, s) => b.removeConn k c.sock s

def owner (fd : Nat) : Option Nat := b.conns.findIdx? fun c => c.fd == fd

def dispatchEvents (entry : Polled) (env : Pump) : Bridge :=
  match b.owner entry.fd with
  | none => b
  | some k =>
    let marked : Bridge :=
      { b with applied := b.applied ++ (b.conns[k]?.toList.map fun c => (entry.seen, c.sock)) }
    if entry.revents.pollIn then marked.drainAt env k
    else if entry.revents.pollErr || entry.revents.pollHup then marked.closeConnection k .hungUp
    else b

end Bridge

def Polled.Legal (entry : Polled) (revents : Revents) : Prop := revents.pollIn = true → entry.wantsIn = true

instance (entry : Polled) (revents : Revents) : Decidable (entry.Legal revents) :=
  inferInstanceAs (Decidable (_ → _))

/-- What an accepted socket brings: the descriptor, and what its peer did before. -/
structure Accepted where
  fd : Nat
  early : Bytes
  ended : Bool
  deriving DecidableEq, Repr

inductive Action where
  | peerWrite (x : Nat) (data : Bytes)
  | peerClose (x : Nat)
  | build
  | poll
  | polled (listeners : List Nat) (revents : List Revents)
  | accept (result : Option Accepted) (placed : Bool)
  | events (env : Pump)
  | retry (env : Nat → Pump)
  | guest (hdr : VsockHdr) (body : Bytes) (env : Reception)

namespace Bridge

/-- The connection whose descriptor an entry has is the one that `poll` sees. -/
def resolve (b : Bridge) (entry : Polled) : Polled :=
  { entry with seen := ((b.owner entry.fd).bind fun k => b.conns[k]?).map Connection.sock }

/-- None for an action that cannot happen. -/
def step (b : Bridge) (a : Action) : Option Bridge :=
  if b.trapped then none
  else match a with
  | .peerWrite x data =>
    let s := b.socks x
    if x < b.nextSock ∧ s.ended = false ∧ s.gone = none then
      some (b.setSock x { s with written := s.written ++ data, unread := s.unread ++ data })
    else none
  | .peerClose x =>
    if x < b.nextSock ∧ (b.socks x).gone = none then some
      (b.setSock x { b.socks x with ended := true }) else none
  | .build =>
    match b.round with
    | .idle => some { b with round := .built (b.conns.map fun c => { fd := c.fd, wantsIn := !c.paused }) }
    | _ => none
  | .poll =>
    match b.round with
    | .built set => some { b with round := .polling (set.map b.resolve) }
    | _ => none
  | .polled listeners revents =>
    match b.round with
    | .polling set =>
      if listeners.Sublist b.inboundPorts ∧ List.Forall₂ Polled.Legal set revents then
        some { b with round := .ready listeners (set.zipWith (fun e r => { e with revents := r }) revents) }
      else none
    | _ => none
  | .accept result placed =>
    match b.round with
    | .ready (port :: listeners) set =>
      let b := { b with round := .ready listeners set }
      match result with
      | none => some b
      | some new => if b.Free new.fd then some (b.startConnection port new.fd new.early new.ended placed) else none
    | _ => none
  | .events env =>
    match b.round with
    | .ready [] (entry :: set) => some ({ b with round := .ready [] set }.dispatchEvents entry env)
    | _ => none
  | .retry env =>
    match b.round with
    | .ready [] [] => some ({ b with round := .idle }.retry env)
    | _ => none
  | .guest hdr body env =>
    if body.length ≤ maxPayload ∧ ∀ fd ∈ env.dial,
      b.Free fd then some (b.dispatchGuestPacket hdr body env) else none

inductive Taken (b : Bridge) : Action → Bridge → Prop where
  | peerWrite (x : Nat) (data : Bytes) (known : x < b.nextSock)
      (held : (b.socks x).ended = false ∧ (b.socks x).gone = none) :
      Taken b (.peerWrite x data) (b.setSock x
        { b.socks x with written := (b.socks x).written ++ data, unread := (b.socks x).unread ++ data })
  | peerClose (x : Nat) (known : x < b.nextSock) (held : (b.socks x).gone = none) :
      Taken b (.peerClose x) (b.setSock x { b.socks x with ended := true })
  | build (round : b.round = .idle) :
      Taken b .build { b with round := .built (b.conns.map fun c => { fd := c.fd, wantsIn := !c.paused }) }
  | poll (set : List Polled) (round : b.round = .built set) :
      Taken b .poll { b with round := .polling (set.map b.resolve) }
  | polled (listeners : List Nat) (revents : List Revents) (set : List Polled) (round : b.round = .polling set)
      (inbound : listeners.Sublist b.inboundPorts) (legal : List.Forall₂ Polled.Legal set revents) :
      Taken b (.polled listeners revents)
        { b with round := .ready listeners (set.zipWith (fun e r => { e with revents := r }) revents) }
  | nothing (port : Nat) (listeners : List Nat) (set : List Polled) (placed : Bool)
      (round : b.round = .ready (port :: listeners) set) :
      Taken b (.accept none placed) { b with round := .ready listeners set }
  | accept (port : Nat) (listeners : List Nat) (set : List Polled) (new : Accepted) (placed : Bool)
      (round : b.round = .ready (port :: listeners) set) (free : b.Free new.fd) :
      Taken b (.accept (some new) placed)
        ({ b with round := .ready listeners set }.startConnection port new.fd new.early new.ended placed)
  | events (entry : Polled) (set : List Polled) (env : Pump) (round : b.round = .ready [] (entry :: set)) :
      Taken b (.events env) ({ b with round := .ready [] set }.dispatchEvents entry env)
  | retry (env : Nat → Pump) (round : b.round = .ready [] []) :
      Taken b (.retry env) ({ b with round := .idle }.retry env)
  | guest (hdr : VsockHdr) (body : Bytes) (env : Reception) (short : body.length ≤ maxPayload)
      (free : ∀ fd ∈ env.dial, b.Free fd) :
      Taken b (.guest hdr body env) (b.dispatchGuestPacket hdr body env)

theorem step_taken {b b' : Bridge} {a : Action} (next : b.step a = some b') :
    b.trapped = false ∧ b.Taken a b' := by
  unfold step at next
  split at next
  · exact nomatch next
  · rename_i live
    refine ⟨eq_false_of_ne_true live, ?_⟩
    cases a with
    | peerWrite x data =>
      dsimp only at next
      split at next
      · rename_i held
        cases next
        exact .peerWrite x data held.1 held.2
      · exact nomatch next
    | peerClose x =>
      dsimp only at next
      split at next
      · rename_i held
        cases next
        exact .peerClose x held.1 held.2
      · exact nomatch next
    | build =>
      dsimp only at next
      split at next
      · rename_i round
        cases next
        exact .build round
      · exact nomatch next
    | poll =>
      dsimp only at next
      split at next
      · rename_i set round
        cases next
        exact .poll set round
      · exact nomatch next
    | polled listeners revents =>
      dsimp only at next
      split at next
      · rename_i set round
        split at next
        · rename_i fits
          cases next
          exact .polled listeners revents set round fits.1 fits.2
        · exact nomatch next
      · exact nomatch next
    | accept result placed =>
      dsimp only at next
      split at next
      · rename_i port listeners set round
        cases result with
        | none =>
          cases next
          exact .nothing port listeners set placed round
        | some new =>
          dsimp only at next
          split at next
          · rename_i free
            cases next
            exact .accept port listeners set new placed round free
          · exact nomatch next
      · exact nomatch next
    | events env =>
      dsimp only at next
      split at next
      · rename_i entry set round
        cases next
        exact .events entry set env round
      · exact nomatch next
    | retry env =>
      dsimp only at next
      split at next
      · rename_i round
        cases next
        exact .retry env round
      · exact nomatch next
    | guest hdr body env =>
      dsimp only at next
      split at next
      · rename_i fits
        cases next
        exact .guest hdr body env fits.1 fits.2
      · exact nomatch next

def start (guestCid : Nat) (ports : List PortMap) : Bridge := { guestCid, ports }

def exec : Bridge → List Action → Option Bridge := Run.exec step

end Bridge

def packetOf (op : Op) (guestPort hostPort bufAlloc fwdCnt : Nat) : VsockHdr where
  srcCid := 3
  dstCid := hostCid
  srcPort := guestPort
  dstPort := hostPort
  len := 0
  type := streamType
  op := op.code
  flags := 0
  bufAlloc := bufAlloc
  fwdCnt := fwdCnt

def quiet : Nat → Pump := fun _ => ⟨false, false, 0⟩

def acceptRound (port : Nat) (set : List Revents) (new : Accepted) (placed : Bool) : List Action :=
  [.build, .poll, .polled [port] set, .accept (some new) placed] ++
    set.map (fun _ => .events ⟨false, false, 0⟩) ++ [.retry quiet]

def eventRound (revents : Revents) (env : Pump) : List Action :=
  [.build, .poll, .polled [] [revents], .events env, .retry quiet]

end Machinen.Vsock
