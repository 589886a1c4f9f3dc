import Machinen.Vsock.Frames
import Mathlib.Data.List.Nodup

/-! The keys of the connections. Host ports count up, so a connection from the host can only
take the key of one that the guest opened to a mapped port of that number. -/
namespace Machinen.Vsock

open Bytes Vmm

def Connection.key (c : Connection) : Nat × Nat := (c.guestPort, c.hostPort)

def Action.accepts : Action → Bool
  | .accept (some _) _ => true
  | _ => false

namespace Bridge

variable {b b' : Bridge}

def keys (b : Bridge) : List (Nat × Nat) := b.conns.map Connection.key

/-- A connection from the host is not given the port of a mapped port that the guest is
connected to from the same guest port. -/
def Apart (b : Bridge) : Action → Prop
  | .accept (some _) placed =>
    match b.round with
    | .ready (port :: _) _ => placed = true → b.conns.length < bridgeConnsMax →
        b.findOutbound b.nextHostPort = true → (port, b.nextHostPort) ∉ b.keys
    | _ => True
  | _ => True

instance (b : Bridge) : (a : Action) → Decidable (b.Apart a)
  | .accept (some _) placed => by
    unfold Apart
    cases b.round with
    | ready listeners set => cases listeners <;> infer_instance
    | _ => infer_instance
  | .accept none _ | .peerWrite .. | .peerClose _ | .build | .poll | .polled .. | .events _ | .retry _ | .guest .. =>
    isTrue trivial

def Counts (b : Bridge) : Action → Prop
  | .accept (some _) _ => b.nextHostPort + 1 < 2 ^ 32
  | _ => True

/-- Keys differ, and a host port that was not counted is a mapped one. -/
structure Keyed (b : Bridge) : Prop where
  once : b.keys.Nodup
  origin : ∀ c ∈ b.conns, c.hostPort < b.nextHostPort ∨ b.findOutbound c.hostPort = true

theorem Kept.keyed (kept : b.Kept b') (keyed : b.Keyed) : b'.Keyed := by
  have keys : b'.keys.Subperm b.keys := by
    have keys_eq : ∀ b : Bridge, b.keys = (b.conns.map Connection.ident).map fun i => (i.1, i.2.1) :=
      fun b => by
      rw [List.map_map]
      rfl
    rw [keys_eq, keys_eq]
    obtain ⟨part, perm, sub⟩ := kept.idents
    exact ⟨part.map _, perm.map _, sub.map _⟩
  obtain ⟨part, perm, sub⟩ := keys
  refine ⟨perm.nodup_iff.mp (keyed.once.sublist sub), fun c listed => ?_⟩
  have ident : c.ident ∈ b.conns.map Connection.ident := kept.idents.subset (List.mem_map_of_mem listed)
  obtain ⟨d, old, same⟩ := List.mem_map.mp ident
  have port : d.hostPort = c.hostPort := congrArg (·.2.1) same
  rw [kept.nextHostPort, findOutbound, kept.ports, ← port]
  exact keyed.origin d old

theorem Keyed.push (keyed : b.Keyed) {c : Connection} {s : Sock} (new : c.key ∉ b.keys)
    (origin : c.hostPort < b.nextHostPort ∨ b.findOutbound c.hostPort = true) : (b.pushConn c s).Keyed where
  once := by
    change ((b.conns ++ [c]).map Connection.key).Nodup
    rw [List.map_append, List.map_singleton]
    exact List.nodup_append_comm.mp (List.nodup_cons.mpr ⟨new, keyed.once⟩)
  origin := by
    change ∀ d ∈ b.conns ++ [c], _
    rw [List.forall_mem_append, List.forall_mem_singleton]
    exact ⟨keyed.origin, origin⟩

theorem start_keyed (guestCid : Nat) (ports : List PortMap) : (start guestCid ports).Keyed :=
  ⟨List.nodup_nil, fun _ listed => absurd listed List.not_mem_nil⟩

theorem route_none {hdr : VsockHdr} (unknown : b.route hdr = none) :
    (hdr.srcPort, hdr.dstPort) ∉ b.keys := by
  intro listed
  obtain ⟨c, member, same⟩ := List.mem_map.mp listed
  have other := List.findIdx?_eq_none_iff.mp unknown c member
  obtain ⟨guest, host⟩ := Prod.mk.inj same
  rw [guest, host] at other
  simp at other

theorem Keyed.route (keyed : b.Keyed) {k : Nat} {c : Connection} (found : b.conns[k]? = some c)
    {hdr : VsockHdr}
    (guest : c.guestPort = hdr.srcPort) (host : c.hostPort = hdr.dstPort) : b.route hdr = some k := by
  obtain ⟨inside, rfl⟩ := List.getElem?_eq_some_iff.mp found
  refine List.findIdx?_eq_some_iff_getElem.mpr ⟨inside, by simp [guest, host], fun j before same => ?_⟩
  have apart := List.nodup_iff_injective_getElem.mp keyed.once
  have keys : (b.conns[j]).key = (b.conns[k]).key := by
    obtain ⟨first, second⟩ := Bool.and_eq_true_iff.mp same
    exact Prod.ext ((beq_iff_eq.mp first).trans guest.symm) ((beq_iff_eq.mp second).trans host.symm)
  have positions := @apart ⟨j, by simp only [Bridge.keys, List.length_map]; omega⟩
    ⟨k, by simpa only [Bridge.keys, List.length_map] using inside⟩
      (by simpa only [Bridge.keys, List.getElem_map] using keys)
  exact absurd (congrArg Fin.val positions) (Nat.ne_of_lt before)

theorem Keyed.guest (keyed : b.Keyed) (hdr : VsockHdr) (body : Bytes) (env : Reception) :
    (b.dispatchGuestPacket hdr body env).Keyed := by
  have same : ∀ b' : Bridge, b'.conns = b.conns → b'.nextHostPort = b.nextHostPort → b'.ports = b.ports →
    b'.Keyed := by
    intro b' conns next ports
    refine ⟨?_, ?_⟩
    · rw [Bridge.keys, conns]
      exact keyed.once
    · rw [conns, next]
      unfold findOutbound
      rw [ports]
      exact keyed.origin
  unfold dispatchGuestPacket
  cases route : b.route hdr with
  | none =>
    dsimp only
    unfold receiveUnknown
    split
    · rename_i wanted
      cases env.dial with
      | none => exact same _ rfl rfl rfl
      | some fd =>
        dsimp only
        split
        · exact same _ rfl rfl rfl
        · exact keyed.push (route_none route) (.inr wanted.2)
    · exact same _ rfl rfl rfl
  | some k =>
    dsimp only
    cases found : b.conns[k]? with
    | none => exact keyed
    | some c =>
      dsimp only
      cases received : receivePacket b.guestCid env hdr body c (b.socks c.sock) with
      | none => exact same _ rfl rfl rfl
      | some after =>
        obtain ⟨_ | c', s⟩ := after
        · exact (removeConn_kept found).keyed keyed
        · exact (setConn_kept found (packet_ident received)).keyed keyed

theorem Keyed.accept (keyed : b.Keyed) (guestPort fd : Nat) (early : Bytes) (ended placed : Bool)
    (apart : placed = true → b.conns.length < bridgeConnsMax → b.findOutbound b.nextHostPort = true →
      (guestPort, b.nextHostPort) ∉ b.keys) :
        (b.startConnection guestPort fd early ended placed).Keyed := by
  have counted : ∀ b' : Bridge, b'.conns = b.conns → b'.nextHostPort = b.nextHostPort + 1 →
    b'.ports = b.ports →
      b'.Keyed := by
    intro b' conns next ports
    refine ⟨?_, ?_⟩
    · rw [Bridge.keys, conns]
      exact keyed.once
    · rw [conns, next]
      unfold findOutbound
      rw [ports]
      exact fun c listed => (keyed.origin c listed).imp_left Nat.lt_succ_of_lt
  unfold startConnection
  split
  · exact ⟨keyed.once, keyed.origin⟩
  · dsimp only
    split
    · exact counted _ rfl rfl rfl
    · rename_i room
      split
      · rename_i chain
        refine (counted { b with nextHostPort := b.nextHostPort + 1 } rfl rfl rfl).push ?_
          (.inl (Nat.lt_succ_self _))
        intro listed
        cases mapped : b.findOutbound b.nextHostPort with
        | true => exact apart chain (Nat.not_le.mp room) mapped listed
        | false =>
          -- A port that is not mapped was counted before.
          obtain ⟨d, member, same⟩ := List.mem_map.mp listed
          have port : d.hostPort = b.nextHostPort := congrArg Prod.snd same
          rcases keyed.origin d member with earlier | outbound
          · exact absurd (port ▸ earlier) (Nat.lt_irrefl _)
          · rw [port, mapped] at outbound
            exact nomatch outbound
      · exact counted _ rfl rfl rfl

theorem Keyed.step (keyed : b.Keyed) {a : Action} (apart : b.Apart a) (next : b.step a = some b') :
    b'.Keyed := by
  cases (step_taken next).2 with
  | peerWrite | peerClose | build | poll | polled | nothing => exact ⟨keyed.once, keyed.origin⟩
  | accept port listeners set new placed round =>
    simp only [Apart, round] at apart
    exact Keyed.accept (b := { b with round := .ready listeners set }) ⟨keyed.once, keyed.origin⟩ _ _ _ _ _
      apart
  | events entry set env =>
    exact (dispatchEvents_kept { b with round := .ready [] set } entry env).keyed ⟨keyed.once, keyed.origin⟩
  | retry env => exact (retry_kept { b with round := .idle } env).keyed ⟨keyed.once, keyed.origin⟩
  | guest hdr body env => exact keyed.guest hdr body env

theorem step_nextHostPort {a : Action} (next : b.step a = some b') :
    b'.nextHostPort ≤ b.nextHostPort + if a.accepts then 1 else 0 := by
  cases (step_taken next).2 with
  | peerWrite | peerClose | build | poll | polled | nothing => exact Nat.le_add_right _ _
  | accept port listeners set new placed round =>
    unfold startConnection
    grind [trap, pushConn, setSock, Action.accepts]
  | events entry set env =>
    rw [(dispatchEvents_kept _ entry env).nextHostPort]
    exact Nat.le_add_right _ _
  | retry env =>
    rw [(retry_kept _ env).nextHostPort]
    exact Nat.le_add_right _ _
  | guest hdr body env =>
    refine Nat.le_trans (Nat.le_of_eq ?_) (Nat.le_add_right _ _)
    unfold dispatchGuestPacket receiveUnknown
    grind [trap, pushConn, setConn, removeConn, setSock, sendRst]

theorem exec_counts (as : List Action) (b : Bridge)
    (few : b.nextHostPort + as.countP Action.accepts < 2 ^ 32) : Run.Meets Bridge.step Counts b as := by
  induction as generalizing b with
  | nil => exact trivial
  | cons a as ih =>
    rw [List.countP_cons] at few
    refine ⟨?_, ?_⟩
    · cases a with
      | accept result placed =>
        cases result with
        | none => exact trivial
        | some new =>
          have one : (Action.accept (some new) placed).accepts = true := rfl
          rw [if_pos one] at few
          change b.nextHostPort + 1 < 2 ^ 32
          omega
      | _ => exact trivial
    · cases next : b.step a with
      | none => exact trivial
      | some b' => exact ih b' (by have := step_nextHostPort next; omega)

end Bridge

/-- In every run of fewer accepts than there are host ports left, in which the counter does
not meet a live connection to a mapped port, keys differ, packets find their connection and
the counter does not overflow. -/
theorem exec_keyed (guestCid : Nat) (ports : List PortMap) (as : List Action) (b : Bridge)
    (run : (Bridge.start guestCid ports).exec as = some b)
    (apart : Run.Meets Bridge.step Bridge.Apart (Bridge.start guestCid ports) as)
    (few : as.countP Action.accepts < 2 ^ 32 - 1024) :
    b.keys.Nodup ∧
      (∀ k c hdr, b.conns[k]? = some c → c.guestPort = hdr.srcPort → c.hostPort = hdr.dstPort →
        b.route hdr = some k) ∧
      Run.Meets Bridge.step Bridge.Counts (Bridge.start guestCid ports) as := by
  have keyed : b.Keyed := Run.exec_guarded (fun _ _ _ keyed apart next =>
    Bridge.Keyed.step keyed apart next) as (Bridge.start_keyed guestCid ports) apart run
  refine ⟨keyed.once, fun _ _ _ found guest host => keyed.route found guest host,
    Bridge.exec_counts as _ ?_⟩
  change 1024 + as.countP Action.accepts < 2 ^ 32
  omega

def sharedRun (hostPort : Nat) : List Action :=
  [.guest (packetOf .request 5000 hostPort 4096 0) [] { dial := some 7, placed := true }] ++
    acceptRound 5000 [{}] ⟨8, [], false⟩ true

theorem exec_keyed_shared : ∃ b, (Bridge.start 3 [⟨5000, .inbound⟩, ⟨2222, .outbound⟩]).exec
    (sharedRun 2222) = some b ∧ b.keys.Nodup ∧
      (∀ k c hdr, b.conns[k]? = some c → c.guestPort = hdr.srcPort → c.hostPort = hdr.dstPort →
        b.route hdr = some k) ∧
      Run.Meets Bridge.step Bridge.Counts (Bridge.start 3 [⟨5000, .inbound⟩, ⟨2222, .outbound⟩])
        (sharedRun 2222) :=
  ⟨_, rfl, exec_keyed 3 [⟨5000, .inbound⟩, ⟨2222, .outbound⟩] (sharedRun 2222) _ rfl (by decide +kernel)
    (by decide +kernel)⟩

/-- The mapped port is the first that is counted. -/
theorem keys_shared : ∃ b, (Bridge.start 3 [⟨5000, .inbound⟩, ⟨1024, .outbound⟩]).exec (sharedRun 1024) =
    some b ∧ ¬ b.keys.Nodup :=
  ⟨_, rfl, by decide +kernel⟩

end Machinen.Vsock
