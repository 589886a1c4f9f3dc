import Machinen.Vsock.Bridge
import Mathlib.Data.List.Perm.Subperm

/-! What the steps of the bridge leave as it was. -/
namespace Machinen.Vsock

open Bytes Vmm

section Lists

variable {A : Type} {as : List A} {a : A} {k : Nat}

theorem split_perm (found : as[k]? = some a) : (a :: as.eraseIdx k).Perm as := by
  obtain ⟨inside, rfl⟩ := List.getElem?_eq_some_iff.mp found
  exact List.getElem_cons_eraseIdx_perm inside

theorem swapRemove_perm (found : as[k]? = some a) : (swapRemove as k).Perm (as.eraseIdx k) := by
  obtain ⟨inside, -⟩ := List.getElem?_eq_some_iff.mp found
  obtain ⟨front, last, rfl⟩ := (List.eq_nil_or_concat as).resolve_left fun empty => by
    rw [empty] at inside
    exact absurd inside (Nat.not_lt_zero _)
  rw [List.concat_eq_append] at inside ⊢
  rw [List.length_append, List.length_singleton] at inside
  unfold swapRemove
  rw [List.getLast?_concat]
  dsimp only
  by_cases atEnd : k = front.length
  · subst atEnd
    rw [List.set_append_right _ _ (Nat.le_refl _), List.eraseIdx_append_of_length_le (Nat.le_refl _),
      Nat.sub_self]
    simp
  · have before : k < front.length := by omega
    rw [List.set_append_left _ _ before, List.eraseIdx_append_of_lt_length before, List.dropLast_concat]
    exact (List.set_perm_cons_eraseIdx before last).trans (List.perm_append_singleton _ _).symm

end Lists

/-- What no step changes of a connection. -/
def Connection.ident (c : Connection) : Nat × Nat × Nat × Nat := (c.guestPort, c.hostPort, c.fd, c.sock)

variable {c c' : Connection} {s : Sock}

theorem Drained.ident {guestCid : Nat} {env : Pump} {s' : Sock}
    (drained : Drained guestCid env c s c' s') : c'.ident = c.ident := by
  cases drained with
  | same | full => rfl
  | direct open_ nothing pumped => cases pumped <;> rfl
  | flushed open_ room flush pumped => cases pumped <;> rfl

theorem drain_ident (guestCid : Nat) (env : Pump) (c : Connection) (s : Sock) :
    (drainConnection guestCid env c s).1.ident = c.ident := (drain_drained guestCid env c s).ident

theorem Told.ident {guestCid : Nat} {s' : Sock} (told : Told guestCid c s c' s') :
    c'.ident = c.ident := by
  cases told <;> rfl

theorem packet_ident {guestCid : Nat} {env : Reception} {hdr : VsockHdr} {body : Bytes} {s' : Sock}
    (received : receivePacket guestCid env hdr body c s = some (some c', s')) : c'.ident = c.ident := by
  cases packet_received guestCid received with
  | response op | other op => rfl
  | rw op told => exact told.ident
  | told op told => exact told.ident

namespace Bridge

/-- No connection is new, and nothing but the connections and their sockets changes. -/
structure Kept (b b' : Bridge) : Prop where
  guestCid : b'.guestCid = b.guestCid
  ports : b'.ports = b.ports
  nextHostPort : b'.nextHostPort = b.nextHostPort
  nextSock : b'.nextSock = b.nextSock
  round : b'.round = b.round
  resets : b'.resets = b.resets
  trapped : b'.trapped = b.trapped
  idents : (b'.conns.map Connection.ident).Subperm (b.conns.map Connection.ident)

variable {b : Bridge}

theorem Kept.refl (b : Bridge) : b.Kept b := ⟨rfl, rfl, rfl, rfl, rfl, rfl, rfl, List.Subperm.refl _⟩

theorem Kept.trans {b' b'' : Bridge} (first : b.Kept b') (later : b'.Kept b'') : b.Kept b'' where
  guestCid := later.guestCid.trans first.guestCid
  ports := later.ports.trans first.ports
  nextHostPort := later.nextHostPort.trans first.nextHostPort
  nextSock := later.nextSock.trans first.nextSock
  round := later.round.trans first.round
  resets := later.resets.trans first.resets
  trapped := later.trapped.trans first.trapped
  idents := later.idents.trans first.idents

theorem setConn_kept {k : Nat} (found : b.conns[k]? = some c)
    (same : c'.ident = c.ident) : b.Kept (b.setConn k c' s) := by
  refine ⟨rfl, rfl, rfl, rfl, rfl, rfl, rfl, ?_⟩
  obtain ⟨inside, -⟩ := List.getElem?_eq_some_iff.mp found
  have perm := (List.set_perm_cons_eraseIdx inside c').map Connection.ident
  have split := (split_perm found).map Connection.ident
  rw [List.map_cons, ← same] at split
  exact (perm.trans split).subperm

theorem removeConn_kept {k x : Nat} (found : b.conns[k]? = some c) :
    b.Kept (b.removeConn k x s) := by
  refine ⟨rfl, rfl, rfl, rfl, rfl, rfl, rfl, ?_⟩
  have perm := (swapRemove_perm found).map Connection.ident
  exact perm.subperm.trans ((List.eraseIdx_sublist b.conns k).map Connection.ident).subperm

theorem drainAt_kept (b : Bridge) (env : Pump) (k : Nat) : b.Kept (b.drainAt env k) := by
  unfold drainAt
  cases found : b.conns[k]? with
  | none => exact .refl b
  | some c => exact setConn_kept found (drain_ident b.guestCid env c _)

theorem closeConnection_kept (b : Bridge) (k : Nat) (why : Gone) : b.Kept (b.closeConnection k why) := by
  unfold closeConnection
  cases found : b.conns[k]? with
  | none => exact .refl b
  | some c => exact removeConn_kept found

theorem retry_kept (b : Bridge) (env : Nat → Pump) : b.Kept (b.retry env) := by
  have pass : ∀ (more k : Nat) (b : Bridge), b.Kept (retryFrom env more k b) := by
    intro more
    induction more with
    | zero => exact fun _ b => .refl b
    | succ more ih =>
      intro k b
      rw [retryFrom]
      refine Kept.trans ?_ (ih (k + 1) _)
      split
      · exact drainAt_kept b (env k) k
      · exact .refl b
  exact pass b.conns.length 0 b

theorem dispatchEvents_kept (b : Bridge) (entry : Polled) (env : Pump) :
    b.Kept (b.dispatchEvents entry env) := by
  unfold dispatchEvents
  cases b.owner entry.fd with
  | none => exact .refl b
  | some k =>
    dsimp only
    have marked : b.Kept
      { b with applied := b.applied ++ (b.conns[k]?.toList.map fun c => (entry.seen, c.sock)) } :=
      ⟨rfl, rfl, rfl, rfl, rfl, rfl, rfl, List.Subperm.refl _⟩
    split
    · exact marked.trans (drainAt_kept _ env k)
    · split
      · exact marked.trans (closeConnection_kept _ k .hungUp)
      · exact .refl b

end Bridge
end Machinen.Vsock
