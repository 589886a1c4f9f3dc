import Machinen.Vsock.Streams

/-! What each step of the bridge is for one socket, and from it the rule by which a property
of single connections holds of every connection of the bridge. -/
namespace Machinen.Vsock

open Bytes Vmm

variable {b' : Bridge} {k : Nat} {c : Connection}

/-- A step of one connection, or none. -/
def Stream.moves (guestCid : Nat) (s : Stream) : Option Local → Option Stream
  | none => some s
  | some l => s.step guestCid l

namespace Bridge

variable {b : Bridge}

/-- Where the connection of a socket is listed. -/
def indexOf (b : Bridge) (x : Nat) : Option Nat := b.conns.findIdx? fun c => c.sock == x

/-- What is done to the connection at an index, seen from one socket. -/
def onSock (b : Bridge) (k : Option Nat) (x : Nat) (l : Connection → Option Local) : Option Local :=
  (k.bind fun k => b.conns[k]?).bind fun c => if c.sock = x then l c else none

/-- The step that an action is for the connection of a socket. -/
def localOf (b : Bridge) (x : Nat) : Action → Option Local
  | .peerWrite y data => if y = x then some (.write data) else none
  | .peerClose y => if y = x then some .finish else none
  | .build | .poll | .polled _ _ | .accept none _ => none
  | .accept (some new) placed =>
    match b.round with
    | .ready (port :: _) _ =>
      if port = 0 ∨ 2 ^ 32 ≤ b.nextHostPort + 1 ∨ bridgeConnsMax ≤ b.conns.length ∨ b.nextSock ≠ x then none
      else some (.accept port b.nextHostPort b.nextSock new placed)
    | _ => none
  | .events env =>
    match b.round with
    | .ready [] (entry :: _) =>
      b.onSock (b.owner entry.fd) x fun _ =>
        if entry.revents.pollIn then some (.drain env)
        else if entry.revents.pollErr || entry.revents.pollHup then some .hangUp
        else none
    | _ => none
  | .retry env =>
    (b.indexOf x).bind fun k => b.onSock (some k) x fun c =>
      if c.pending = [] then none else some (.drain (env k))
  | .guest hdr body env =>
    match b.route hdr with
    | some k => b.onSock (some k) x fun _ => some (.packet hdr body env)
    | none =>
      match env.dial with
      | none => none
      | some fd =>
        if Op.ofCode hdr.op = .request ∧ b.findOutbound hdr.dstPort = true ∧
          b.conns.length < bridgeConnsMax ∧
            b.nextSock = x then
          some (.dial hdr fd b.nextSock env.placed)
        else none

/-- From one state to another every socket goes by its step. -/
structure Moved (b b' : Bridge) (l : Nat → Option Local) : Prop where
  owned : b'.Owned
  guestCid : b'.guestCid = b.guestCid
  streams : ∀ x, (b.stream x).moves b.guestCid (l x) = some (b'.stream x)

theorem Owned.moved_none (owned : b.Owned) (conns : b'.conns = b.conns) (socks : b'.socks = b.socks)
    (later : b.nextSock ≤ b'.nextSock) (guestCid : b'.guestCid = b.guestCid) :
    b.Moved b' fun _ => none where
  owned := ⟨conns ▸ owned.once, fun c listed => Nat.lt_of_lt_of_le (owned.known c (conns ▸ listed)) later⟩
  guestCid := guestCid
  streams x := by rw [stream, stream, conns, socks]; rfl

theorem moved_update {x : Nat} {s : Stream} {l : Local} (owned : b'.Owned)
    (guestCid : b'.guestCid = b.guestCid) (streams : b'.stream = Function.update b.stream x s)
    (step : (b.stream x).step b.guestCid l = some s) :
    b.Moved b' fun y => if x = y then some l else none where
  owned := owned
  guestCid := guestCid
  streams y := by
    rw [streams]
    by_cases here : x = y
    · subst here
      rw [if_pos rfl, Function.update_self]
      exact step
    · rw [if_neg here, Function.update_of_ne (Ne.symm here)]
      rfl

theorem Moved.congr {l l' : Nat → Option Local} (moved : b.Moved b' l)
    (same : ∀ x, l x = l' x) : b.Moved b' l' := (funext same : l = l') ▸ moved

theorem onSock_of (found : b.conns[k]? = some c) (x : Nat)
    (l : Connection → Option Local) : b.onSock (some k) x l = if c.sock = x then l c else none := by
  rw [onSock, Option.bind_some, found]
  rfl

theorem findIdx_found {A : Type} {as : List A} {p : A → Bool} (here : as.findIdx? p = some k) :
    ∃ a, as[k]? = some a ∧ p a = true := by
  obtain ⟨inside, holds, -⟩ := List.findIdx?_eq_some_iff_getElem.mp here
  exact ⟨as[k], List.getElem?_eq_getElem inside, holds⟩

theorem drain_sock (guestCid : Nat) (env : Pump) (c : Connection) (s : Sock) :
    (drainConnection guestCid env c s).1.sock = c.sock := congrArg (·.2.2.2) (drain_ident guestCid env c s)

theorem packet_sock {guestCid : Nat} {env : Reception} {hdr : VsockHdr} {body : Bytes} {c' : Connection}
    {s s' : Sock} (received : receivePacket guestCid env hdr body c s = some (some c', s')) :
    c'.sock = c.sock :=
  congrArg (·.2.2.2) (packet_ident received)

theorem Owned.moved_drain (owned : b.Owned) (env : Pump) (found : b.conns[k]? = some c) :
    b.Moved (b.drainAt env k) fun x => if c.sock = x then some (.drain env) else none := by
  have set := owned.setConn (s := (drainConnection b.guestCid env c (b.socks c.sock)).2) found
    (drain_sock b.guestCid env c (b.socks c.sock))
  have here : b.drainAt env k = b.setConn k (drainConnection b.guestCid env c (b.socks c.sock)).1
      (drainConnection b.guestCid env c (b.socks c.sock)).2 := by
    rw [drainAt, found]
  rw [here]
  refine moved_update set.1 rfl set.2 ?_
  rw [owned.stream_at found]
  rfl

theorem Owned.moved_hangUp (owned : b.Owned) (found : b.conns[k]? = some c) :
    b.Moved (b.closeConnection k .hungUp) fun x => if c.sock = x then some .hangUp else none := by
  have removed := owned.removeConn (s := { b.socks c.sock with gone := some .hungUp }) found
  have here : b.closeConnection k .hungUp = b.removeConn k c.sock
    { b.socks c.sock with gone := some .hungUp } := by
    rw [closeConnection, found]
  rw [here]
  refine moved_update removed.1 rfl removed.2 ?_
  rw [owned.stream_at found]
  rfl

theorem Owned.moved_events (owned : b.Owned) (entry : Polled) (env : Pump) :
    b.Moved (b.dispatchEvents entry env) fun x => b.onSock (b.owner entry.fd) x fun _ =>
      if entry.revents.pollIn then some (.drain env)
      else if entry.revents.pollErr || entry.revents.pollHup then some .hangUp
      else none := by
  unfold dispatchEvents
  cases owner : b.owner entry.fd with
  | none => exact owned.moved_none rfl rfl (Nat.le_refl _) rfl
  | some k =>
    obtain ⟨c, found, -⟩ := findIdx_found owner
    simp only [onSock_of found]
    let marked : Bridge :=
      { b with applied := b.applied ++ (b.conns[k]?.toList.map fun c => (entry.seen, c.sock)) }
    have marked_owned : marked.Owned := ⟨owned.once, owned.known⟩
    change b.Moved (if entry.revents.pollIn then marked.drainAt env k
      else if entry.revents.pollErr || entry.revents.pollHup then marked.closeConnection k .hungUp else b) _
    cases pollIn : entry.revents.pollIn with
    | true =>
      have moved := marked_owned.moved_drain env (c := c) (k := k) found
      exact ⟨moved.owned, moved.guestCid, moved.streams⟩
    | false =>
      cases down : entry.revents.pollErr || entry.revents.pollHup with
      | true =>
        have moved := marked_owned.moved_hangUp (c := c) (k := k) found
        exact ⟨moved.owned, moved.guestCid, moved.streams⟩
      | false =>
        refine Moved.congr (owned.moved_none rfl rfl (Nat.le_refl _) rfl) fun x => ?_
        simp

/-- What the retry pass does to one stream. -/
def retried (env : Pump) (s : Stream) : Option Local :=
  s.conn.bind fun c => if c.pending = [] then none else some (.drain env)

theorem Owned.indexOf_eq (owned : b.Owned) (found : b.conns[k]? = some c) :
    b.indexOf c.sock = some k := by
  obtain ⟨inside, rfl⟩ := List.getElem?_eq_some_iff.mp found
  refine List.findIdx?_eq_some_iff_getElem.mpr ⟨inside, beq_self_eq_true _, fun j before => ?_⟩
  intro same
  have apart := List.nodup_iff_injective_getElem.mp owned.once
  have := @apart ⟨j, by simp; omega⟩ ⟨k, by simpa using inside⟩ (by simpa using same)
  exact absurd (congrArg Fin.val this) (Nat.ne_of_lt before)

theorem indexOf_eq_map (b : Bridge) (x : Nat) :
    b.indexOf x = (b.conns.map Connection.sock).findIdx? (· == x) := by
  rw [List.findIdx?_map]
  rfl

theorem indexOf_setConn {c' : Connection} {s : Sock} (found : b.conns[k]? = some c)
    (same : c'.sock = c.sock) (x : Nat) : (b.setConn k c' s).indexOf x = b.indexOf x := by
  obtain ⟨inside, rfl⟩ := List.getElem?_eq_some_iff.mp found
  have socks : (b.conns.set k c').map Connection.sock = b.conns.map Connection.sock := by
    rw [List.map_set, same]
    refine List.ext_getElem (by simp) fun j _ _ => ?_
    rw [List.getElem_set]
    split
    · subst j
      rw [List.getElem_map]
    · rfl
  rw [indexOf_eq_map, indexOf_eq_map]
  exact congrArg _ socks

theorem Owned.moved_retryAt (owned : b.Owned) (env : Pump) (k : Nat) :
    let b' := if b.conns[k]?.any fun c => c.pending ≠ [] then b.drainAt env k else b
    (b.Moved b' fun x => if b.indexOf x = some k then retried env (b.stream x) else none) ∧
      ∀ x, b'.indexOf x = b.indexOf x := by
  dsimp only
  cases found : b.conns[k]? with
  | none =>
    refine ⟨Moved.congr (owned.moved_none rfl rfl (Nat.le_refl _) rfl) fun x => ?_, fun _ => rfl⟩
    split
    · rename_i here
      obtain ⟨c, there, -⟩ := findIdx_found here
      rw [found] at there
      exact nomatch there
    · rfl
  | some c =>
    have own : ∀ x, b.indexOf x = some k ↔ c.sock = x := by
      intro x
      constructor
      · intro here
        obtain ⟨d, there, same⟩ := findIdx_found here
        rw [found] at there
        cases there
        simpa using same
      · rintro rfl
        exact owned.indexOf_eq found
    simp only [Option.any_some, own]
    by_cases pending : c.pending = []
    · rw [if_neg (by simpa using pending)]
      refine ⟨Moved.congr (owned.moved_none rfl rfl (Nat.le_refl _) rfl) fun x => ?_, fun _ => rfl⟩
      split
      · rename_i here
        subst here
        rw [owned.stream_at found, retried, Option.bind_some, if_pos pending]
      · rfl
    · rw [if_pos (by simpa using pending)]
      refine ⟨Moved.congr (owned.moved_drain env found) fun x => ?_, fun x => ?_⟩
      · split
        · rename_i here
          subst here
          rw [owned.stream_at found, retried, Option.bind_some, if_neg pending]
        · rfl
      · have here : b.drainAt env k = b.setConn k (drainConnection b.guestCid env c (b.socks c.sock)).1
            (drainConnection b.guestCid env c (b.socks c.sock)).2 := by
          rw [drainAt, found]
        rw [here]
        exact indexOf_setConn found (drain_sock b.guestCid env c _) x

theorem Owned.moved_retryFrom (owned : b.Owned) (env : Nat → Pump) (more k : Nat) :
    b.Moved (retryFrom env more k b) fun x =>
      (b.indexOf x).bind fun j => if k ≤ j ∧ j < k + more then retried (env j) (b.stream x) else none := by
  induction more generalizing k b with
  | zero =>
    refine Moved.congr (owned.moved_none rfl rfl (Nat.le_refl _) rfl) fun x => ?_
    cases b.indexOf x with
    | none => rfl
    | some j => exact (if_neg fun within => absurd within.2 (by omega)).symm
  | succ more ih =>
    obtain ⟨first, listed⟩ := owned.moved_retryAt (env k) k
    rw [retryFrom]
    generalize (if b.conns[k]?.any fun c => c.pending ≠ [] then b.drainAt (env k) k else b) =
      mid at first listed ⊢
    have rest := ih first.owned (k + 1)
    refine ⟨rest.owned, rest.guestCid.trans first.guestCid, fun x => ?_⟩
    have now := first.streams x
    have later := rest.streams x
    rw [first.guestCid, listed] at later
    cases place : b.indexOf x with
    | none =>
      simp only [place, reduceCtorEq, if_false, Option.bind_none] at now later ⊢
      rw [← Option.some.inj now] at later
      exact later
    | some j =>
      simp only [place, Option.some.injEq, Option.bind_some] at now later ⊢
      by_cases here : j = k
      · subst here
        rw [if_pos rfl] at now
        rw [if_neg fun within => absurd within.1 (Nat.not_succ_le_self j)] at later
        rw [if_pos ⟨Nat.le_refl j, by omega⟩, now]
        exact later
      · rw [if_neg here] at now
        have within : (k + 1 ≤ j ∧ j < k + 1 + more) ↔ k ≤ j ∧ j < k + (more + 1) := by omega
        simp only [within] at later
        have same := Option.some.inj now
        rw [← same] at later
        exact later

theorem Owned.moved_retry (owned : b.Owned) (env : Nat → Pump) :
    b.Moved (b.retry env) fun x => (b.indexOf x).bind fun k =>
      b.onSock (some k) x fun c => if c.pending = [] then none else some (.drain (env k)) := by
  refine Moved.congr (owned.moved_retryFrom env b.conns.length 0) fun x => ?_
  cases place : b.indexOf x with
  | none => rfl
  | some k =>
    obtain ⟨c, found, same⟩ := findIdx_found place
    obtain rfl : c.sock = x := by simpa using same
    obtain ⟨inside, -⟩ := List.getElem?_eq_some_iff.mp found
    rw [Option.bind_some, Option.bind_some, if_pos ⟨Nat.zero_le k, by omega⟩, onSock_of found, if_pos rfl,
      owned.stream_at found]
    rfl

theorem Owned.moved_packet (owned : b.Owned) {hdr : VsockHdr} {body : Bytes} {env : Reception}
    (found : b.conns[k]? = some c) {after : Option Connection × Sock}
    (received : receivePacket b.guestCid env hdr body c (b.socks c.sock) = some after) :
    b.Moved (match after with
      | (some c', s) => b.setConn k c' s
      | (none, s) => b.removeConn k c.sock s) fun x => if c.sock = x then some (.packet hdr body env) else none := by
  have step : (b.stream c.sock).step b.guestCid (.packet hdr body env) = some ⟨after.1, after.2⟩ := by
    rw [owned.stream_at found, Stream.step, Option.bind_some, received]
    rfl
  obtain ⟨_ | c', s⟩ := after
  · have removed := owned.removeConn (s := s) found
    exact moved_update removed.1 rfl removed.2 step
  · have set := owned.setConn (s := s) found (packet_sock received)
    exact moved_update set.1 rfl set.2 step

theorem Owned.moved_dial (owned : b.Owned) (hdr : VsockHdr) (body : Bytes) (env : Reception)
    (unknown : b.route hdr = none) (live : b.trapped = false) :
    b.Moved (b.receiveUnknown hdr env) (fun x => b.localOf x (.guest hdr body env)) ∧
      (b.receiveUnknown hdr env).trapped = false := by
  have refused : ∀ l : Nat → Option Local, (∀ x, l x = none) →
      b.Moved (b.sendRst hdr env.placed) l ∧ (b.sendRst hdr env.placed).trapped = false := fun l nothing =>
    ⟨Moved.congr (owned.moved_none rfl rfl (Nat.le_refl _) rfl) fun x => (nothing x).symm, live⟩
  unfold receiveUnknown localOf
  simp only [unknown]
  by_cases wanted : Op.ofCode hdr.op = .request ∧ b.findOutbound hdr.dstPort = true
  · rw [if_pos wanted]
    cases env.dial with
    | none => exact refused _ fun _ => rfl
    | some fd =>
      dsimp only
      by_cases full : bridgeConnsMax ≤ b.conns.length
      · rw [if_pos full]
        exact refused _ fun x => if_neg fun open_ => absurd open_.2.2.1 (by omega)
      · rw [if_neg full]
        let c : Connection :=
          { guestPort := hdr.srcPort, hostPort := hdr.dstPort, fd, sock := b.nextSock, state := .established
            peerBufAlloc := hdr.bufAlloc, peerFwdCnt := hdr.fwdCnt }
        obtain ⟨pushed_owned, streams⟩ := owned.pushConn (c := c)
          (s := (Stream.dialed b.guestCid hdr fd b.nextSock env.placed).sock) rfl
        have step : (b.stream b.nextSock).step b.guestCid (.dial hdr fd b.nextSock env.placed) =
            some ⟨some c, (Stream.dialed b.guestCid hdr fd b.nextSock env.placed).sock⟩ := rfl
        refine ⟨Moved.congr (moved_update pushed_owned rfl streams step) fun x => ?_, live⟩
        have room : b.conns.length < bridgeConnsMax := by omega
        simp only [wanted, room, true_and]
  · rw [if_neg wanted]
    refine refused _ fun x => ?_
    cases env.dial with
    | none => rfl
    | some fd => exact if_neg fun open_ => wanted ⟨open_.1, open_.2.1⟩

theorem Owned.moved_guest (owned : b.Owned) (hdr : VsockHdr) (body : Bytes) (env : Reception)
    (live : b.trapped = false) : b.Moved (b.dispatchGuestPacket hdr body env) fun x =>
      if (b.dispatchGuestPacket hdr body env).trapped then none else b.localOf x (.guest hdr body env) := by
  unfold dispatchGuestPacket
  cases route : b.route hdr with
  | none =>
    obtain ⟨moved, still⟩ := owned.moved_dial hdr body env route live
    exact Moved.congr moved fun x => by simp only [still, Bool.false_eq_true, if_false]
  | some k =>
    obtain ⟨c, found, -⟩ := findIdx_found route
    have here : ∀ x, b.localOf x (.guest hdr body env) = if c.sock =
      x then some (.packet hdr body env) else none := by
      intro x
      simp only [localOf, route, onSock_of found]
    simp only [found]
    cases received : receivePacket b.guestCid env hdr body c (b.socks c.sock) with
    | none => exact Moved.congr (owned.moved_none rfl rfl (Nat.le_refl _) rfl) fun _ => (if_pos rfl).symm
    | some after =>
      have moved := owned.moved_packet found received
      obtain ⟨_ | c', s⟩ := after
      · exact Moved.congr moved fun x => by
          rw [here, if_neg (show (b.removeConn k c.sock s).trapped ≠ true from ne_true_of_eq_false live)]
      · exact Moved.congr moved fun x => by
          rw [here, if_neg (show (b.setConn k c' s).trapped ≠ true from ne_true_of_eq_false live)]

theorem Owned.closed (owned : b.Owned) (s : Sock) :
    ({ b with nextSock := b.nextSock + 1 }.setSock b.nextSock s).Owned ∧
      ({ b with nextSock := b.nextSock + 1 }.setSock b.nextSock s).stream =
        Function.update b.stream b.nextSock ⟨none, s⟩ := by
  refine ⟨⟨owned.once, fun c listed => Nat.lt_succ_of_lt (owned.known c listed)⟩, ?_⟩
  funext x
  by_cases here : x = b.nextSock
  · have absent : x ∉ b.conns.map Connection.sock := by
      intro listed
      obtain ⟨c, member, same⟩ := List.mem_map.mp listed
      exact absurd (owned.known c member) (by omega)
    subst here
    rw [Function.update_self]
    simp only [stream, setSock, Function.update_self, connOf_none absent]
  · rw [Function.update_of_ne here]
    simp only [stream, setSock, Function.update_of_ne here]

theorem Owned.moved_accept (owned : b.Owned) (live : b.trapped = false) {port : Nat} {listeners : List Nat}
    {set : List Polled} (round : b.round = .ready (port :: listeners) set) (new : Accepted) (placed : Bool)
    (b' : Bridge) (eq : b' = { b with round := .ready listeners set }.startConnection port new.fd new.early
      new.ended placed) :
    b.Moved b' fun x => if b'.trapped then none else b.localOf x (.accept (some new) placed) := by
  subst eq
  unfold startConnection localOf
  simp only [round]
  by_cases bad : port = 0 ∨ 2 ^ 32 ≤ b.nextHostPort + 1
  · rw [if_pos bad]
    exact Moved.congr (owned.moved_none rfl rfl (Nat.le_refl _) rfl) fun _ => (if_pos rfl).symm
  · rw [if_neg bad]
    by_cases full : bridgeConnsMax ≤ b.conns.length
    · rw [if_pos full]
      refine Moved.congr (owned.moved_none rfl rfl (Nat.le_refl _) rfl) fun x => ?_
      rw [if_neg (ne_true_of_eq_false live), if_pos (.inr (.inr (.inl full)))]
    · rw [if_neg full]
      obtain ⟨known_port, within⟩ := not_or.mp bad
      simp only [known_port, within, full, false_or]
      let fresh : Bridge := { b with round := .ready listeners set, nextHostPort := b.nextHostPort + 1 }
      have fresh_owned : fresh.Owned := ⟨owned.once, owned.known⟩
      let born := Stream.accepted b.guestCid port b.nextHostPort b.nextSock new placed
      have step : (b.stream b.nextSock).step b.guestCid
        (.accept port b.nextHostPort b.nextSock new placed) =
          some born := rfl
      cases placed with
      | true =>
        let c : Connection :=
          { guestPort := port, hostPort := b.nextHostPort, fd := new.fd, sock := b.nextSock, state := .connecting }
        obtain ⟨pushed_owned, streams⟩ := fresh_owned.pushConn (c := c) (s := born.sock) rfl
        refine Moved.congr (moved_update pushed_owned rfl streams step) fun x => ?_
        exact .trans (ite_not ..).symm (if_neg (ne_true_of_eq_false live)).symm
      | false =>
        obtain ⟨closed_owned, streams⟩ := fresh_owned.closed born.sock
        refine Moved.congr (moved_update closed_owned rfl streams step) fun x => ?_
        exact .trans (ite_not ..).symm (if_neg (ne_true_of_eq_false live)).symm

theorem setSock_stream (x : Nat) (s : Sock) :
    (b.setSock x s).stream = Function.update b.stream x ⟨connOf b.conns x, s⟩ := by
  funext y
  by_cases here : y = x
  · subst here
    rw [Function.update_self]
    simp only [stream, setSock, Function.update_self]
  · rw [Function.update_of_ne here]
    simp only [stream, setSock, Function.update_of_ne here]

theorem Owned.step (owned : b.Owned) {a : Action} (next : b.step a = some b') :
    b.Moved b' fun x => if b'.trapped then none else b.localOf x a := by
  obtain ⟨live, taken⟩ := step_taken next
  -- Most steps cannot trap, so their moves are those of the action.
  have calm : ∀ {b' : Bridge} {l : Nat → Option Local}, b'.trapped = false → b.Moved b' l →
      b.Moved b' fun x => if b'.trapped then none else l x := fun calm moved =>
    Moved.congr moved fun x => (if_neg (ne_true_of_eq_false calm)).symm
  cases taken with
  | peerWrite x data known held | peerClose x known held =>
    exact calm live (moved_update (b := b) ⟨owned.once, owned.known⟩ rfl (setSock_stream x _) (if_pos held))
  | build | poll | polled | nothing => exact calm live (owned.moved_none rfl rfl (Nat.le_refl _) rfl)
  | accept port listeners set new placed round free => exact owned.moved_accept live round new placed _ rfl
  | events entry set env round =>
    have resumed : ({ b with round := .ready [] set } : Bridge).Owned := ⟨owned.once, owned.known⟩
    have moved := resumed.moved_events entry env
    refine calm ((dispatchEvents_kept ..).trapped.trans live)
      (Moved.congr ⟨moved.owned, moved.guestCid, moved.streams⟩ ?_)
    intro x
    simp only [localOf, round]
    rfl
  | retry env round =>
    have resumed : ({ b with round := .idle } : Bridge).Owned := ⟨owned.once, owned.known⟩
    have moved := resumed.moved_retry env
    exact calm ((retry_kept ..).trapped.trans live) ⟨moved.owned, moved.guestCid, moved.streams⟩
  | guest hdr body env => exact owned.moved_guest hdr body env live

theorem onSock_some {k : Option Nat} {x : Nat} {f : Connection → Option Local} {l : Local}
    (here : b.onSock k x f = some l) : ∃ c ∈ b.conns, c.sock = x ∧ f c = some l := by
  obtain ⟨c, found, given⟩ := Option.bind_eq_some_iff.mp here
  obtain ⟨k, -, found⟩ := Option.bind_eq_some_iff.mp found
  obtain ⟨same, given⟩ := Option.ite_none_right_eq_some.mp given
  exact ⟨c, List.mem_of_getElem? found, same, given⟩

theorem Owned.localOf_le (owned : b.Owned) {a : Action} (next : b.step a = some b') {x : Nat}
    {l : Local} (here : b.localOf x a = some l) : x ≤ b.nextSock := by
  have listed : ∀ {k f}, b.onSock k x f = some l → x ≤ b.nextSock := fun here => by
    obtain ⟨c, member, rfl, -⟩ := onSock_some here
    exact Nat.le_of_lt (owned.known c member)
  cases (step_taken next).2 with
  | peerWrite y data known held =>
    obtain ⟨rfl, -⟩ := Option.ite_none_right_eq_some.mp here
    exact Nat.le_of_lt known
  | peerClose y known held =>
    obtain ⟨rfl, -⟩ := Option.ite_none_right_eq_some.mp here
    exact Nat.le_of_lt known
  | build | poll | polled | nothing => cases here
  | accept port listeners set new placed round free =>
    simp only [localOf, round] at here
    obtain ⟨right, -⟩ := Option.ite_none_left_eq_some.mp here
    have : b.nextSock = x := by
      by_contra other
      exact right (.inr (.inr (.inr other)))
    exact Nat.le_of_eq this.symm
  | events entry set env round =>
    simp only [localOf, round] at here
    exact listed here
  | retry env round =>
    obtain ⟨k, -, here⟩ := Option.bind_eq_some_iff.mp here
    exact listed here
  | guest hdr body env short free =>
    simp only [localOf] at here
    split at here
    · exact listed here
    · split at here
      · cases here
      · obtain ⟨right, -⟩ := Option.ite_none_right_eq_some.mp here
        exact Nat.le_of_eq right.2.2.2.symm

/-- What an action is for each single connection meets a condition. -/
def Each (ok : Stream → Local → Prop) (b : Bridge) (a : Action) : Prop :=
  ∀ x ≤ b.nextSock, ∀ l ∈ b.localOf x a, ok (b.stream x) l

instance (ok : Stream → Local → Prop) [∀ s l, Decidable (ok s l)] (b : Bridge) (a : Action) :
    Decidable (b.Each ok a) := by
  unfold Each
  infer_instance

theorem exec_streams {guestCid : Nat} {ports : List PortMap} {inv : Stream → Prop}
    {ok : Stream → Local → Prop}
    (keeps : ∀ s l t, inv s → ok s l → Stream.step guestCid s l = some t → inv t) (blank : inv ⟨none, {}⟩)
    {as : List Action}
    (met : Run.Meets Bridge.step (Each ok) (start guestCid ports) as)
    (run : (start guestCid ports).exec as = some b') (x : Nat) : inv (b'.stream x) := by
  have steps : ∀ (b : Bridge) (a : Action) (b' : Bridge),
    (b.Owned ∧ b.guestCid = guestCid ∧ ∀ x, inv (b.stream x)) →
      b.Each ok a → b.step a = some b' → b'.Owned ∧ b'.guestCid = guestCid ∧ ∀ x, inv (b'.stream x) := by
    rintro b a b' ⟨owned, cid, all⟩ fine next
    obtain ⟨owned', cid', streams⟩ := owned.step next
    refine ⟨owned', cid'.trans cid, fun x => ?_⟩
    have moves := streams x
    cases trapped : b'.trapped with
    | true =>
      rw [trapped, if_pos rfl] at moves
      exact Option.some.inj moves ▸ all x
    | false =>
      rw [trapped, if_neg Bool.false_ne_true] at moves
      cases here : b.localOf x a with
      | none =>
        rw [here] at moves
        exact Option.some.inj moves ▸ all x
      | some l =>
        rw [here, cid] at moves
        exact keeps _ l _ (all x) (fine x (owned.localOf_le next here) l here) moves
  exact (Run.exec_guarded steps as ⟨start_owned guestCid ports, rfl, fun _ => blank⟩ met run).2.2 x

theorem exec_streams_all {guestCid : Nat} {ports : List PortMap} {inv : Stream → Prop}
    (keeps : ∀ s l t, inv s → Stream.step guestCid s l = some t → inv t) (blank : inv ⟨none, {}⟩)
    {as : List Action} (run : (start guestCid ports).exec as = some b') (x : Nat) : inv (b'.stream x) :=
  have steps : ∀ s l t, inv s → (fun (_ : Stream) (_ : Local) => True) s l →
    Stream.step guestCid s l = some t → inv t :=
    fun s l t sound _ next => keeps s l t sound next
  exec_streams steps blank (Run.Meets.of_forall (fun _ _ _ _ _ _ => trivial) as _) run x

end Bridge
end Machinen.Vsock
