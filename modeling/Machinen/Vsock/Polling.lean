import Machinen.Vsock.Frames
import Mathlib.Data.List.Nodup

/-! Events and descriptors. The bridge finds the connection of an event by its descriptor, so
an event reaches the connection it was reported for as long as no new connection gets a
descriptor whose events are still to be looked at. -/
namespace Machinen.Vsock

open Bytes Vmm

def Revents.any (r : Revents) : Bool := r.pollIn || r.pollErr || r.pollHup

def Round.awaited : Round → List Polled
  | .polling set => set
  | .ready _ set => set.filter fun entry => entry.revents.any
  | .idle | .built _ => []

namespace Bridge

variable {b b' : Bridge}

def Unpolled (b : Bridge) (fd : Nat) : Prop := ∀ entry ∈ b.round.awaited, entry.seen ≠ none → entry.fd ≠ fd

instance (b : Bridge) (fd : Nat) : Decidable (b.Unpolled fd) := by
  unfold Unpolled
  infer_instance

def Renewed (b : Bridge) : Action → Prop
  | .accept (some new) placed => placed = true → b.conns.length < bridgeConnsMax → b.Unpolled new.fd
  | .guest hdr _ env => b.route hdr = none → Op.ofCode hdr.op = .request ∧ b.findOutbound hdr.dstPort = true →
      b.conns.length < bridgeConnsMax → ∀ fd ∈ env.dial, b.Unpolled fd
  | _ => True

instance (b : Bridge) : (a : Action) → Decidable (b.Renewed a)
  | .accept (some new) placed =>
    inferInstanceAs (Decidable (placed = true → b.conns.length < bridgeConnsMax → b.Unpolled new.fd))
  | .guest hdr _ env =>
    inferInstanceAs (Decidable (b.route hdr = none → Op.ofCode hdr.op = .request ∧
      b.findOutbound hdr.dstPort = true → b.conns.length < bridgeConnsMax → ∀ fd ∈ env.dial, b.Unpolled fd))
  | .accept none _ | .peerWrite .. | .peerClose _ | .build | .poll | .polled .. | .events _
  | .retry _ => isTrue trivial

/-- Open descriptors differ, an awaited entry is about the connection that has its descriptor,
if there is one, and so were those that were acted on. -/
structure Current (b : Bridge) : Prop where
  once : (b.conns.map Connection.fd).Nodup
  awaited : ∀ entry ∈ b.round.awaited, ∀ x, entry.seen = some x → ∀ c ∈ b.conns, c.fd = entry.fd →
    c.sock = x
  applied : ∀ x y, (some x, y) ∈ b.applied → x = y

theorem start_current (guestCid : Nat) (ports : List PortMap) : (start guestCid ports).Current :=
  ⟨List.nodup_nil, fun _ listed => absurd listed List.not_mem_nil,
    fun _ _ listed => absurd listed List.not_mem_nil⟩

theorem Kept.current (kept : b.Kept b') (current : b.Current)
    (applied : ∀ x y, (some x, y) ∈ b'.applied → x = y) : b'.Current := by
  have fds_eq : ∀ b : Bridge, b.conns.map Connection.fd = (b.conns.map Connection.ident).map fun i =>
    i.2.2.1 := fun b => by
    rw [List.map_map]
    rfl
  refine ⟨?_, ?_, applied⟩
  · obtain ⟨part, perm, sub⟩ := kept.idents
    have once := current.once
    rw [fds_eq] at once ⊢
    exact (perm.map _).nodup_iff.mp (once.sublist (sub.map _))
  · rw [kept.round]
    intro entry listed x seen c member same
    obtain ⟨d, old, ident⟩ := List.mem_map.mp (kept.idents.subset (List.mem_map_of_mem member))
    have fd : d.fd = c.fd := congrArg (·.2.2.1) ident
    have sock : d.sock = c.sock := congrArg (·.2.2.2) ident
    exact sock ▸ current.awaited entry listed x seen d old (fd.trans same)

theorem Current.push (current : b.Current) {c : Connection} {s : Sock} (free : b.Free c.fd)
    (unpolled : b.Unpolled c.fd) : (b.pushConn c s).Current where
  once := by
    change ((b.conns ++ [c]).map Connection.fd).Nodup
    rw [List.map_append, List.map_singleton]
    refine List.nodup_append_comm.mp (List.nodup_cons.mpr ⟨fun listed => ?_, current.once⟩)
    obtain ⟨d, member, same⟩ := List.mem_map.mp listed
    exact free d member same
  awaited entry listed x seen := by
    change ∀ d ∈ b.conns ++ [c], _
    rw [List.forall_mem_append, List.forall_mem_singleton]
    refine ⟨current.awaited entry listed x seen, fun same => ?_⟩
    exact absurd same.symm (unpolled entry listed (by rw [seen]; exact Option.some_ne_none x))
  applied := current.applied

theorem Current.resume (current : b.Current) (conns : b'.conns = b.conns) (applied : b'.applied = b.applied)
    (fewer : ∀ entry ∈ b'.round.awaited, entry ∈ b.round.awaited) : b'.Current where
  once := conns ▸ current.once
  awaited entry listed := conns ▸ current.awaited entry (fewer entry listed)
  applied := applied ▸ current.applied

theorem drainAt_applied (b : Bridge) (env : Pump) (k : Nat) : (b.drainAt env k).applied = b.applied := by
  unfold drainAt
  cases b.conns[k]? <;> rfl

theorem closeConnection_applied (b : Bridge) (k : Nat) (why : Gone) :
    (b.closeConnection k why).applied = b.applied := by
  unfold closeConnection
  cases b.conns[k]? <;> rfl

theorem retry_applied (b : Bridge) (env : Nat → Pump) : (b.retry env).applied = b.applied := by
  have pass : ∀ (more k : Nat) (b : Bridge), (retryFrom env more k b).applied = b.applied := by
    intro more
    induction more with
    | zero => exact fun _ _ => rfl
    | succ more ih =>
      intro k b
      rw [retryFrom, ih]
      split
      · exact drainAt_applied b (env k) k
      · rfl
  exact pass b.conns.length 0 b

theorem Current.events (current : b.Current) {set : List Polled} {entry : Polled}
    (round : b.round = .ready [] (entry :: set)) (env : Pump) :
    ({ b with round := .ready [] set }.dispatchEvents entry env).Current := by
  have fewer : ∀ e ∈ (Round.ready [] set).awaited, e ∈ b.round.awaited := by
    intro e listed
    obtain ⟨member, some_⟩ := List.mem_filter.mp listed
    rw [round]
    exact List.mem_filter.mpr ⟨List.mem_cons_of_mem _ member, some_⟩
  have resumed : ({ b with round := .ready [] set } : Bridge).Current := current.resume rfl rfl fewer
  unfold dispatchEvents
  cases owner : ({ b with round := .ready [] set } : Bridge).owner entry.fd with
  | none => exact resumed
  | some k =>
    obtain ⟨inside, same, -⟩ := List.findIdx?_eq_some_iff_getElem.mp owner
    have member : b.conns[k] ∈ b.conns := List.getElem_mem inside
    let marked : Bridge :=
      { b with round := .ready [] set, applied := b.applied ++ [(entry.seen, b.conns[k].sock)] }
    have marked_current : entry.revents.any = true → marked.Current := by
      intro events
      refine ⟨resumed.once, resumed.awaited, ?_⟩
      have listed : entry ∈ b.round.awaited := by
        rw [round]
        exact List.mem_filter.mpr ⟨List.mem_cons_self, events⟩
      intro x y here
      rcases List.mem_append.mp here with old | new
      · exact current.applied x y old
      · obtain ⟨seen, rfl⟩ := Prod.mk.inj (List.mem_singleton.mp new)
        exact (current.awaited entry listed x seen.symm _ member (beq_iff_eq.mp same)).symm
    have found : b.conns[k]? = some b.conns[k] := List.getElem?_eq_getElem inside
    simp only [found, Option.toList_some, List.map_cons, List.map_nil]
    change (if entry.revents.pollIn then marked.drainAt env k
      else if entry.revents.pollErr || entry.revents.pollHup then marked.closeConnection k .hungUp
      else { b with round := .ready [] set }).Current
    split
    · rename_i pollIn
      have now := marked_current (by rw [Revents.any, pollIn]; rfl)
      exact (drainAt_kept marked env k).current now (drainAt_applied marked env k ▸ now.applied)
    · split
      · rename_i down
        have now := marked_current (by rw [Revents.any, Bool.or_assoc, down, Bool.or_true])
        exact (closeConnection_kept marked k .hungUp).current now
          (closeConnection_applied marked k .hungUp ▸ now.applied)
      · exact resumed

theorem Current.poll (current : b.Current) (set : List Polled) :
    ({ b with round := .polling (set.map b.resolve) } : Bridge).Current := by
  refine ⟨current.once, ?_, current.applied⟩
  intro entry listed x seen c member same
  obtain ⟨plain, -, rfl⟩ := List.mem_map.mp listed
  obtain ⟨d, found, rfl⟩ := Option.map_eq_some_iff.mp seen
  obtain ⟨k, owner, found⟩ := Option.bind_eq_some_iff.mp found
  obtain ⟨inside, holds, -⟩ := List.findIdx?_eq_some_iff_getElem.mp owner
  rw [List.getElem?_eq_getElem inside] at found
  cases found
  have fd : c.fd = (b.conns[k]).fd := same.trans (beq_iff_eq.mp holds).symm
  rw [List.inj_on_of_nodup_map current.once member (List.getElem_mem inside) fd]

theorem Current.polled (current : b.Current) {set : List Polled} (round : b.round = .polling set)
    (listeners : List Nat) (revents : List Revents) :
    Current { b with round := .ready listeners (set.zipWith (fun e r => { e with revents := r }) revents) } := by
  refine ⟨current.once, ?_, current.applied⟩
  intro entry listed x seen c member same
  obtain ⟨listed, -⟩ := List.mem_filter.mp listed
  obtain ⟨k, inside, rfl⟩ := List.mem_iff_getElem.mp listed
  rw [List.getElem_zipWith] at seen same
  have within : k < set.length := by
    rw [List.length_zipWith] at inside
    omega
  have entry : set[k] ∈ b.round.awaited := by
    rw [round]
    exact List.getElem_mem _
  exact current.awaited _ entry x seen c member same

theorem Current.accept (current : b.Current) (guestPort fd : Nat) (early : Bytes) (ended placed : Bool)
    (free : b.Free fd) (renewed : placed = true → b.conns.length < bridgeConnsMax → b.Unpolled fd) :
    (b.startConnection guestPort fd early ended placed).Current := by
  unfold startConnection
  split
  · exact current.resume rfl rfl fun _ => id
  · dsimp only
    split
    · exact current.resume rfl rfl fun _ => id
    · rename_i room
      split
      · rename_i chain
        have counted : ({ b with nextHostPort := b.nextHostPort + 1 } : Bridge).Current :=
          current.resume rfl rfl fun _ => id
        exact counted.push free (renewed chain (Nat.not_le.mp room))
      · exact current.resume rfl rfl fun _ => id

theorem Current.guest (current : b.Current) (hdr : VsockHdr) (body : Bytes) (env : Reception)
    (free : ∀ fd ∈ env.dial, b.Free fd) (renewed : b.Renewed (.guest hdr body env)) :
    (b.dispatchGuestPacket hdr body env).Current := by
  unfold dispatchGuestPacket
  cases route : b.route hdr with
  | none =>
    dsimp only
    unfold receiveUnknown
    split
    · rename_i wanted
      cases dial : env.dial with
      | none => exact current.resume rfl rfl fun _ => id
      | some fd =>
        dsimp only
        split
        · exact current.resume rfl rfl fun _ => id
        · rename_i room
          exact current.push (free fd dial) (renewed route wanted (Nat.not_le.mp room) fd dial)
    · exact current.resume rfl rfl fun _ => id
  | some k =>
    dsimp only
    cases found : b.conns[k]? with
    | none => exact current
    | some c =>
      dsimp only
      cases received : receivePacket b.guestCid env hdr body c (b.socks c.sock) with
      | none => exact current.resume rfl rfl fun _ => id
      | some after =>
        obtain ⟨_ | c', s⟩ := after
        · exact (removeConn_kept found).current current current.applied
        · exact (setConn_kept found (packet_ident received)).current current current.applied

theorem Current.step (current : b.Current) {a : Action} (renewed : b.Renewed a)
    (next : b.step a = some b') : b'.Current := by
  cases (step_taken next).2 with
  | peerWrite | peerClose => exact current.resume rfl rfl fun _ => id
  | build => exact current.resume rfl rfl fun _ none => absurd none List.not_mem_nil
  | poll set => exact current.poll set
  | polled listeners revents set round => exact current.polled round listeners revents
  | nothing port listeners set placed round =>
    exact current.resume rfl rfl (by rw [round]; exact fun _ => id)
  | accept port listeners set new placed round free =>
    have resumed : ({ b with round := .ready listeners set } : Bridge).Current :=
      current.resume rfl rfl (by rw [round]; exact fun _ => id)
    refine resumed.accept port new.fd new.early new.ended placed free fun chain room => ?_
    have unpolled := renewed chain room
    rw [Unpolled, round] at unpolled
    exact unpolled
  | events entry set env round => exact current.events round env
  | retry env round =>
    have resumed : ({ b with round := .idle } : Bridge).Current :=
      current.resume rfl rfl fun _ none => absurd none List.not_mem_nil
    refine (retry_kept _ env).current resumed ?_
    rw [retry_applied]
    exact resumed.applied
  | guest hdr body env short free => exact current.guest hdr body env free renewed

end Bridge

/-- In every run in which no new connection gets a descriptor whose events are still awaited,
events reach only the connection that they were reported for. -/
theorem exec_current (guestCid : Nat) (ports : List PortMap) (as : List Action) (b : Bridge)
    (run : (Bridge.start guestCid ports).exec as = some b)
    (renewed : Run.Meets Bridge.step Bridge.Renewed (Bridge.start guestCid ports) as) :
    ∀ x y, (some x, y) ∈ b.applied → x = y :=
  (Run.exec_guarded (fun _ _ _ current renewed next => Bridge.Current.step current renewed next) as
    (Bridge.start_current guestCid ports) renewed run).applied

/-- The peer of a connection hangs up. Before that is looked at the guest resets the
connection and opens another one. -/
def reuseRun (fd : Nat) : List Action :=
  [.guest (packetOf .request 9000 2222 4096 0) [] { dial := some 7, placed := true }, .peerClose 0, .build,
    .poll, .polled [] [{ pollHup := true }], .guest (packetOf .rst 9000 2222 4096 0) [] {},
    .guest (packetOf .request 9001 2222 4096 0) [] { dial := some fd, placed := true },
    .events ⟨true, true, 4096⟩, .retry quiet]

theorem exec_current_reuse : ∃ b, (Bridge.start 3 [⟨2222, .outbound⟩]).exec (reuseRun 8) = some b ∧
    ∀ x y, (some x, y) ∈ b.applied → x = y :=
  ⟨_, rfl, exec_current 3 [⟨2222, .outbound⟩] (reuseRun 8) _ rfl (by decide +kernel)⟩

/-- It gets the same descriptor, and is closed for the other's hang-up. -/
theorem events_misapplied : ∃ b, (Bridge.start 3 [⟨2222, .outbound⟩]).exec (reuseRun 7) = some b ∧
    (b.socks 1).gone = some .hungUp ∧ ¬ ∀ x y, (some x, y) ∈ b.applied → x = y := by
  refine ⟨_, rfl, rfl, fun right => ?_⟩
  exact absurd (right 0 1 (by decide)) (by decide)

end Machinen.Vsock
