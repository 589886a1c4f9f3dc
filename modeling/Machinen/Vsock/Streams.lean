import Machinen.Vsock.Frames
import Mathlib.Data.List.Nodup

/-! One connection as a machine of its own. What a step of the bridge does to a socket and
its connection are steps of this machine; so what holds of every run of it holds of every
connection of the bridge, however the others interleave. -/
namespace Machinen.Vsock

open Bytes Vmm

/-- A socket, and its connection while there is one. -/
structure Stream where
  conn : Option Connection
  sock : Sock

/-- The first two are how a socket begins: accepted, with its REQUEST in the ring or refused
at once, or dialed for a REQUEST of the guest. -/
inductive Local where
  | accept (guestPort hostPort sock : Nat) (new : Accepted) (placed : Bool)
  | dial (hdr : VsockHdr) (fd sock : Nat) (placed : Bool)
  | write (data : Bytes)
  | finish
  | drain (env : Pump)
  | hangUp
  | packet (hdr : VsockHdr) (body : Bytes) (env : Reception)

section Step

variable (guestCid : Nat)

def Stream.accepted (guestPort hostPort sock : Nat) (new : Accepted) (placed : Bool) : Stream :=
  let c : Connection := { guestPort, hostPort, fd := new.fd, sock, state := .connecting }
  let s : Sock := { written := new.early, unread := new.early, ended := new.ended }
  if placed then ⟨some c, s.place (c.header guestCid .request 0 0) [] (peerRoom c)⟩
  else ⟨none, { s with gone := some .refused }⟩

def Stream.dialed (hdr : VsockHdr) (fd sock : Nat) (placed : Bool) : Stream :=
  let c : Connection :=
    { guestPort := hdr.srcPort, hostPort := hdr.dstPort, fd, sock, state := .established
      peerBufAlloc := hdr.bufAlloc, peerFwdCnt := hdr.fwdCnt }
  let response : VsockHdr := { c.header guestCid .response 0 0 with type := hdr.type }
  ⟨some c, ({ dialed := true } : Sock).inject placed response [] (peerRoom c)⟩

def Stream.step (s : Stream) : Local → Option Stream
  | .accept guestPort hostPort sock new placed => some (.accepted guestCid guestPort hostPort sock new placed)
  | .dial hdr fd sock placed => some (.dialed guestCid hdr fd sock placed)
  | .write data =>
    if s.sock.ended = false ∧ s.sock.gone = none then
      some { s with sock := { s.sock with written := s.sock.written ++ data, unread := s.sock.unread ++ data } }
    else none
  | .finish => if s.sock.gone = none then some { s with sock := { s.sock with ended := true } } else none
  | .drain env =>
    s.conn.map fun c => ⟨some (drainConnection guestCid env c s.sock).1,
      (drainConnection guestCid env c s.sock).2⟩
  | .hangUp => s.conn.map fun _ => ⟨none, { s.sock with gone := some .hungUp }⟩
  | .packet hdr body env =>
    s.conn.bind fun c => (receivePacket guestCid env hdr body c s.sock).map fun after => ⟨after.1, after.2⟩

end Step

def connOf (conns : List Connection) (x : Nat) : Option Connection := conns.find? fun c => c.sock == x

theorem connOf_cons (c : Connection) (conns : List Connection) (x : Nat) :
    connOf (c :: conns) x = if c.sock = x then some c else connOf conns x := by
  unfold connOf
  rw [List.find?_cons]
  by_cases here : c.sock = x
  · simp [here]
  · rw [beq_false_of_ne here, if_neg here]

theorem connOf_none {conns : List Connection} {x : Nat} (absent : x ∉ conns.map Connection.sock) :
    connOf conns x = none := by
  refine List.find?_eq_none.mpr fun c listed same => absent ?_
  exact List.mem_map.mpr ⟨c, listed, by simpa using same⟩

theorem connOf_mem {conns : List Connection} (once : (conns.map Connection.sock).Nodup) {c : Connection}
    (listed : c ∈ conns) : connOf conns c.sock = some c := by
  induction conns with
  | nil => exact nomatch listed
  | cons other rest ih =>
    obtain ⟨apart, rest_once⟩ := List.nodup_cons.mp once
    rw [connOf_cons]
    rcases List.mem_cons.mp listed with rfl | later
    · rw [if_pos rfl]
    · rw [if_neg fun same => apart (List.mem_map.mpr ⟨c, later, same.symm⟩), ih rest_once later]

theorem connOf_perm {conns other : List Connection} (perm : conns.Perm other)
    (once : (conns.map Connection.sock).Nodup) (x : Nat) : connOf conns x = connOf other x := by
  have once' := (perm.map Connection.sock).nodup_iff.mp once
  by_cases listed : x ∈ conns.map Connection.sock
  · obtain ⟨c, member, rfl⟩ := List.mem_map.mp listed
    rw [connOf_mem once member, connOf_mem once' (perm.mem_iff.mp member)]
  · rw [connOf_none listed, connOf_none fun there => listed ((perm.map Connection.sock).mem_iff.mpr there)]

namespace Bridge

variable {b : Bridge}

def stream (b : Bridge) (x : Nat) : Stream := ⟨connOf b.conns x, b.socks x⟩

/-- Every connection has a socket of its own. -/
structure Owned (b : Bridge) : Prop where
  once : (b.conns.map Connection.sock).Nodup
  known : ∀ c ∈ b.conns, c.sock < b.nextSock

theorem start_owned (guestCid : Nat) (ports : List PortMap) : (start guestCid ports).Owned := ⟨.nil, nofun⟩

theorem Owned.stream_at (owned : b.Owned) {k : Nat} {c : Connection} (found : b.conns[k]? = some c) :
    b.stream c.sock = ⟨some c, b.socks c.sock⟩ := by
  rw [stream, connOf_mem owned.once (List.mem_of_getElem? found)]

theorem Owned.setConn (owned : b.Owned) {k : Nat} {c c' : Connection} {s : Sock}
    (found : b.conns[k]? = some c) (same : c'.sock = c.sock) : (b.setConn k c' s).Owned ∧
      (b.setConn k c' s).stream = Function.update b.stream c.sock ⟨some c', s⟩ := by
  obtain ⟨inside, -⟩ := List.getElem?_eq_some_iff.mp found
  have perm := List.set_perm_cons_eraseIdx inside c'
  have split := split_perm found
  have socks : ((b.conns.set k c').map Connection.sock).Perm (b.conns.map Connection.sock) := by
    refine (perm.map Connection.sock).trans (.trans ?_ (split.map Connection.sock))
    rw [List.map_cons, List.map_cons, same]
  have once := socks.nodup_iff.mpr owned.once
  refine ⟨⟨once, ?_⟩, ?_⟩
  · intro d listed
    rcases List.mem_cons.mp (perm.mem_iff.mp listed) with rfl | other
    · exact same ▸ owned.known c (List.mem_of_getElem? found)
    · exact owned.known d (split.mem_iff.mp (List.mem_cons_of_mem _ other))
  · funext x
    unfold stream
    have left : connOf (b.setConn k c' s).conns x = connOf (c' :: b.conns.eraseIdx k) x :=
      connOf_perm perm once x
    rw [left, connOf_cons]
    by_cases here : x = c.sock
    · subst here
      rw [if_pos same, Function.update_self]
      simp only [Bridge.setConn, setSock, same, Function.update_self]
    · have other : connOf b.conns x = connOf (b.conns.eraseIdx k) x := by
        rw [← connOf_perm split ((split.map Connection.sock).nodup_iff.mpr owned.once) x, connOf_cons,
          if_neg (Ne.symm here)]
      rw [if_neg (same ▸ Ne.symm here), Function.update_of_ne here, other]
      simp only [Bridge.setConn, setSock, same, Function.update_of_ne here]

theorem Owned.removeConn (owned : b.Owned) {k : Nat} {c : Connection} {s : Sock}
    (found : b.conns[k]? = some c) : (b.removeConn k c.sock s).Owned ∧
      (b.removeConn k c.sock s).stream = Function.update b.stream c.sock ⟨none, s⟩ := by
  have perm := swapRemove_perm found
  have split := split_perm found
  obtain ⟨apart, rest⟩ := List.nodup_cons.mp ((split.map Connection.sock).nodup_iff.mpr owned.once)
  have once := (perm.map Connection.sock).nodup_iff.mpr rest
  refine ⟨⟨once, ?_⟩, ?_⟩
  · intro d listed
    exact owned.known d (split.mem_iff.mp (List.mem_cons_of_mem _ (perm.mem_iff.mp listed)))
  · funext x
    unfold stream
    have left : connOf (b.removeConn k c.sock s).conns x = connOf (b.conns.eraseIdx k) x :=
      connOf_perm perm once x
    rw [left]
    by_cases here : x = c.sock
    · subst here
      rw [connOf_none apart, Function.update_self]
      simp only [Bridge.removeConn, setSock, Function.update_self]
    · have other : connOf b.conns x = connOf (b.conns.eraseIdx k) x := by
        rw [← connOf_perm split ((split.map Connection.sock).nodup_iff.mpr owned.once) x, connOf_cons,
          if_neg (Ne.symm here)]
      rw [Function.update_of_ne here, other]
      simp only [Bridge.removeConn, setSock, Function.update_of_ne here]

theorem Owned.pushConn (owned : b.Owned) {c : Connection} {s : Sock} (new : c.sock = b.nextSock) :
    (b.pushConn c s).Owned ∧ (b.pushConn c s).stream = Function.update b.stream b.nextSock ⟨some c, s⟩ := by
  have perm : (b.conns ++ [c]).Perm (c :: b.conns) := List.perm_append_singleton _ _
  have apart : c.sock ∉ b.conns.map Connection.sock := by
    intro listed
    obtain ⟨d, member, same⟩ := List.mem_map.mp listed
    exact absurd (owned.known d member) (by omega)
  have once := (perm.map Connection.sock).nodup_iff.mpr (List.nodup_cons.mpr ⟨apart, owned.once⟩)
  refine ⟨⟨once, ?_⟩, ?_⟩
  · intro d listed
    change d.sock < b.nextSock + 1
    rcases List.mem_cons.mp (perm.mem_iff.mp listed) with rfl | old
    · omega
    · exact Nat.lt_succ_of_lt (owned.known d old)
  · funext x
    unfold stream
    have left : connOf (b.pushConn c s).conns x = connOf (c :: b.conns) x := connOf_perm perm once x
    rw [left, connOf_cons]
    by_cases here : x = b.nextSock
    · rw [if_pos (new.trans here.symm), here, Function.update_self]
      simp only [Bridge.pushConn, setSock, Function.update_self]
    · rw [if_neg (new ▸ Ne.symm here), Function.update_of_ne here]
      simp only [Bridge.pushConn, setSock, Function.update_of_ne here]

end Bridge
end Machinen.Vsock
