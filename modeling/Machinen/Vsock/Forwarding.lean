import Machinen.Vsock.Projection

/-! Bytes from the guest to the host peer: what is written to a socket is what the guest sent,
and no more of it is acknowledged, for as long as every write loop gets its whole body out. -/
namespace Machinen.Vsock

open Bytes Vmm

def bodies (routed : List (VsockHdr × Bytes)) : Bytes :=
  routed.flatMap fun p => if Op.ofCode p.1.op = .rw then p.2 else []

theorem bodies_route (s : Sock) (hdr : VsockHdr) (body : Bytes) :
    bodies (s.route hdr body).routed = bodies s.routed ++ if Op.ofCode hdr.op = .rw then body else [] := by
  simp [Sock.route, bodies]

def WriteResult.bytes : WriteResult → Nat
  | .wrote n => n
  | .again => 0

/-- The socket takes `n` bytes before a write returns 0 and with no more stalls than allowed. -/
def Takes (results : List WriteResult) (stalls n : Nat) : Prop :=
  ∃ k ≤ results.length, WriteResult.wrote 0 ∉ results.take k ∧
    stalls + (results.take k).count .again ≤ txEagainStallsMax ∧
      n ≤ ((results.take k).map WriteResult.bytes).sum

instance (results : List WriteResult) (stalls n : Nat) : Decidable (Takes results stalls n) := by
  unfold Takes
  infer_instance

variable {stalls guestCid : Nat} {s s' : Sock} {hdr : VsockHdr} {body : Bytes} {c c' : Connection}

theorem Takes.nothing (results : List WriteResult) (few : stalls ≤ txEagainStallsMax) :
    Takes results stalls 0 := ⟨0, Nat.zero_le _, List.not_mem_nil, few, Nat.le_refl 0⟩

theorem takes_cons (result : WriteResult) (results : List WriteResult) {n : Nat} (more : n ≠ 0) :
    Takes (result :: results) stalls n ↔
      result ≠ .wrote 0 ∧ Takes results (stalls + if result = .again then 1 else 0) (n - result.bytes) := by
  constructor
  · rintro ⟨k, within, nonzero, few, enough⟩
    cases k with
    | zero => exact absurd enough (by simpa using more)
    | succ k =>
      simp only [List.take_succ_cons, List.mem_cons, not_or, List.count_cons, List.map_cons, List.sum_cons,
        beq_iff_eq] at nonzero few enough
      exact ⟨Ne.symm nonzero.1, k, Nat.le_of_succ_le_succ within, nonzero.2, by omega, by omega⟩
  · rintro ⟨first, k, within, nonzero, few, enough⟩
    refine ⟨k + 1, Nat.succ_le_succ within, ?_, ?_, ?_⟩
    · rw [List.take_succ_cons, List.mem_cons, not_or]
      exact ⟨Ne.symm first, nonzero⟩
    · simp only [List.take_succ_cons, List.count_cons, beq_iff_eq]
      omega
    · simp only [List.take_succ_cons, List.map_cons, List.sum_cons]
      omega

theorem takes_stalled {results : List WriteResult} {n : Nat} (takes : Takes results stalls n) :
    stalls ≤ txEagainStallsMax := by
  obtain ⟨k, -, -, few, -⟩ := takes
  omega

theorem writeLoop_stop {result : WriteResult} {results : List WriteResult}
    {remaining : Bytes} (stop : remaining = [] ∨ txEagainStallsMax < stalls) :
    writeLoop (result :: results) stalls remaining = remaining := by
  cases result <;> exact if_pos stop

theorem writeLoop_go {result : WriteResult} {results : List WriteResult} {remaining : Bytes}
    (go : ¬ (remaining = [] ∨ txEagainStallsMax < stalls)) :
    writeLoop (result :: results) stalls remaining = match result with
      | .wrote n => if n = 0 then remaining else writeLoop results stalls (remaining.drop n)
      | .again => writeLoop results (stalls + 1) remaining := by
  cases result <;> exact if_neg go

theorem writeLoop_nil_iff (results : List WriteResult) (stalls : Nat) (few : stalls ≤ txEagainStallsMax)
    (body : Bytes) : writeLoop results stalls body = [] ↔ Takes results stalls body.length := by
  induction results generalizing stalls body with
  | nil =>
    rw [writeLoop]
    constructor
    · rintro rfl
      exact .nothing [] few
    · rintro ⟨k, -, -, -, enough⟩
      exact List.eq_nil_of_length_eq_zero (by simpa using enough)
  | cons result results ih =>
    by_cases empty : body = []
    · subst empty
      rw [writeLoop_stop (.inl rfl)]
      exact iff_of_true rfl (.nothing _ few)
    · have more : body.length ≠ 0 := fun none => empty (List.eq_nil_of_length_eq_zero none)
      rw [writeLoop_go (not_or.mpr ⟨empty, by omega⟩), takes_cons _ _ more]
      cases result with
      | wrote n =>
        by_cases closed : n = 0
        · subst closed
          simp [empty]
        · simp only [ih stalls few (body.drop n), List.length_drop, WriteResult.bytes, ne_eq,
            WriteResult.wrote.injEq, closed, not_false_eq_true, true_and, reduceCtorEq, if_false,
            Nat.add_zero]
      | again =>
        simp only [ne_eq, reduceCtorEq, not_false_eq_true, true_and, if_true, WriteResult.bytes,
          Nat.sub_zero]
        rcases Nat.lt_or_ge txEagainStallsMax (stalls + 1) with over_ | still
        · refine iff_of_false ?_ fun takes => absurd (takes_stalled takes) (by omega)
          cases results with
          | nil => exact empty
          | cons next rest =>
            rw [writeLoop_stop (.inr over_)]
            exact empty
        · exact ih (stalls + 1) still body

structure Stream.Faithful (s : Stream) : Prop where
  got : s.sock.got = bodies s.sock.routed
  counted : ∀ c ∈ s.conn, c.fwdCnt = s.sock.got.length % 2 ^ 32 ∧
    c.bytesFromPeer = s.sock.got.length % 2 ^ 32
  acked : ∀ p ∈ s.sock.sent, ∃ n ≤ s.sock.got.length, p.hdr.fwdCnt = n % 2 ^ 32

def Local.Whole (_ : Stream) : Local → Prop
  | .packet hdr body env => Op.ofCode hdr.op = .rw → Takes env.writes 0 body.length
  | .accept .. | .dial .. | .write _ | .finish | .drain _ | .hangUp => True

instance (s : Stream) : (l : Local) → Decidable (l.Whole s)
  | .packet hdr body env => inferInstanceAs (Decidable (Op.ofCode hdr.op = .rw → Takes env.writes 0 body.length))
  | .accept .. | .dial .. | .write _ | .finish | .drain _ | .hangUp => isTrue trivial

/-- What a step does to the counters and the records of the other direction. -/
structure Untouched (c : Connection) (s : Sock) (c' : Connection) (s' : Sock) : Prop where
  fwdCnt : c'.fwdCnt = c.fwdCnt
  total : c'.bytesFromPeer = c.bytesFromPeer
  got : s'.got = s.got
  routed : s'.routed = s.routed
  sent : ∀ p ∈ s'.sent, p ∈ s.sent ∨ p.hdr.fwdCnt = c.fwdCnt

theorem mem_place {room : Nat} {p : Sent}
    (listed : p ∈ (s.place hdr body room).sent) : p ∈ s.sent ∨ p.hdr = hdr := by
  rcases List.mem_append.mp listed with old | new
  · exact .inl old
  · rw [List.mem_singleton.mp new]
    exact .inr rfl

theorem untouched_place {len flags room : Nat} {op : Op} :
    ∀ p ∈ (s.place (c.header guestCid op len flags) body room).sent,
    p ∈ s.sent ∨ p.hdr.fwdCnt = c.fwdCnt := by
  intro p listed
  exact (mem_place listed).imp_right (congrArg VsockHdr.fwdCnt ·)

theorem Pumped.untouched {env : Pump}
    (pumped : Pumped guestCid env c s c' s') : Untouched c s c' s' := by
  cases pumped with
  | full | again | parked => exact ⟨rfl, rfl, rfl, rfl, fun _ => .inl⟩
  | eof =>
    cases env.next with
    | false => exact ⟨rfl, rfl, rfl, rfl, fun _ => .inl⟩
    | true => exact ⟨rfl, rfl, rfl, rfl, untouched_place⟩
  | data payload rest => exact ⟨rfl, rfl, rfl, rfl, untouched_place (s := { s with unread := rest })⟩

theorem Drained.untouched {env : Pump}
    (drained : Drained guestCid env c s c' s') : Untouched c s c' s' := by
  cases drained with
  | same | full => exact ⟨rfl, rfl, rfl, rfl, fun _ => .inl⟩
  | direct open_ nothing pumped => exact pumped.untouched
  | flushed open_ room flush pumped =>
    have rest := pumped.untouched
    exact ⟨rest.fwdCnt, rest.total, rest.got, rest.routed, fun p listed =>
      (rest.sent p listed).elim (untouched_place p) .inr⟩

theorem Told.untouched (told : Told guestCid c s c' s') :
    Untouched c s c' s' := by
  cases told with
  | missed => exact ⟨rfl, rfl, rfl, rfl, fun _ => .inl⟩
  | placed => exact ⟨rfl, rfl, rfl, rfl, untouched_place⟩

namespace Stream

theorem Faithful.untouched (faithful : Faithful ⟨some c, s⟩)
    (untouched : Untouched c s c' s') : Faithful ⟨some c', s'⟩ := by
  obtain ⟨fwdCnt, total⟩ := faithful.counted c rfl
  refine ⟨?_, ?_, ?_⟩
  · change s'.got = bodies s'.routed
    rw [untouched.got, untouched.routed, faithful.got]
  · rintro d here
    cases here
    change c'.fwdCnt = s'.got.length % 2 ^ 32 ∧ c'.bytesFromPeer = s'.got.length % 2 ^ 32
    rw [untouched.fwdCnt, untouched.total, untouched.got]
    exact ⟨fwdCnt, total⟩
  · intro p listed
    change ∃ n ≤ s'.got.length, _
    rw [untouched.got]
    rcases untouched.sent p listed with old | new
    · exact faithful.acked p old
    · exact ⟨s.got.length, Nat.le_refl _, new.trans fwdCnt⟩

theorem Faithful.routed (faithful : Faithful ⟨some c, s⟩) (other : Op.ofCode hdr.op ≠ .rw) :
    Faithful ⟨some c, s.route hdr body⟩ := by
  refine ⟨?_, faithful.counted, faithful.acked⟩
  rw [bodies_route, if_neg other, List.append_nil]
  exact faithful.got

theorem Faithful.received (faithful : Faithful ⟨some c, s⟩)
    (op : Op.ofCode hdr.op = .rw) : Faithful ⟨some (c.receive body.length),
    (s.route hdr body).deliver body⟩ := by
  obtain ⟨-, total⟩ := faithful.counted c rfl
  have length : ((s.route hdr body).deliver body).got.length = s.got.length + body.length :=
    List.length_append
  have counted : add32 c.bytesFromPeer body.length = (s.got.length + body.length) % 2 ^ 32 := by
    rw [add32, total, Nat.mod_add_mod]
  refine ⟨?_, ?_, fun p listed => ?_⟩
  · change s.got ++ body = bodies (s.route hdr body).routed
    rw [bodies_route, if_pos op, ← faithful.got]
  · intro d here
    cases here
    change add32 c.bytesFromPeer body.length = ((s.route hdr body).deliver body).got.length % 2 ^ 32 ∧
      add32 c.bytesFromPeer body.length = ((s.route hdr body).deliver body).got.length % 2 ^ 32
    rw [length, counted]
    exact ⟨rfl, rfl⟩
  · obtain ⟨n, within, same⟩ := faithful.acked p listed
    refine ⟨n, ?_, same⟩
    change n ≤ ((s.route hdr body).deliver body).got.length
    rw [length]
    exact Nat.le_add_right_of_le within

theorem Faithful.packet {env : Reception} {after : Option Connection}
    (received : Received guestCid env hdr body c s after s') (faithful : Faithful ⟨some c, s⟩)
    (whole : Op.ofCode hdr.op = .rw → Takes env.writes 0 body.length) : Faithful ⟨after, s'⟩ := by
  have credited : Faithful ⟨some (c.credit hdr), s⟩ :=
    faithful.untouched ⟨rfl, rfl, rfl, rfl, fun _ => .inl⟩
  have torn : ∀ why, Op.ofCode hdr.op ≠ .rw → Faithful ⟨none, { s.route hdr body with gone := some why }⟩ :=
    fun why other => ⟨(faithful.routed other).got, nofun, faithful.acked⟩
  cases received with
  | response op =>
    have routed : Faithful ⟨some (c.credit hdr), s.route hdr body⟩ := credited.routed (by rw [op]; decide)
    exact routed.untouched ⟨rfl, rfl, rfl, rfl, fun _ => .inl⟩
  | rw op told =>
    rw [(writeLoop_nil_iff env.writes 0 (Nat.zero_le _) body).mpr (whole op), List.length_nil, Nat.sub_zero,
      List.take_length] at told
    exact (credited.received op).untouched told.untouched
  | shutdown op => exact torn .shutdown (by rw [op]; decide)
  | rst op => exact torn .reset (by rw [op]; decide)
  | told op told => exact (credited.routed (by rw [op]; decide)).untouched told.untouched
  | other op => exact credited.routed op

theorem Faithful.step {s t : Stream} {l : Local} (faithful : s.Faithful)
    (whole : l.Whole s) (next : Stream.step guestCid s l = some t) : t.Faithful := by
  cases l with
  | accept guestPort hostPort sock new placed =>
    cases next
    unfold Stream.accepted
    cases placed with
    | true => exact ⟨rfl, fun c here => (Option.some.inj here) ▸ ⟨rfl, rfl⟩, by simp [Sock.place, Connection.header]⟩
    | false => exact ⟨rfl, nofun, nofun⟩
  | dial hdr fd sock placed =>
    cases next
    unfold Stream.dialed
    cases placed with
    | true =>
      exact ⟨rfl, fun c here => (Option.some.inj here) ▸ ⟨rfl, rfl⟩,
        by simp [Sock.inject, Sock.place, Connection.header]⟩
    | false => exact ⟨rfl, fun c here => (Option.some.inj here) ▸ ⟨rfl, rfl⟩, nofun⟩
  | write data =>
    obtain ⟨-, rfl⟩ := Run.guarded next
    exact ⟨faithful.got, faithful.counted, faithful.acked⟩
  | finish =>
    obtain ⟨-, rfl⟩ := Run.guarded next
    exact ⟨faithful.got, faithful.counted, faithful.acked⟩
  | drain env =>
    obtain ⟨c, here, rfl⟩ := Option.map_eq_some_iff.mp next
    obtain ⟨conn, sock⟩ := s
    cases here
    exact faithful.untouched (drain_drained guestCid env c sock).untouched
  | hangUp =>
    obtain ⟨c, here, rfl⟩ := Option.map_eq_some_iff.mp next
    exact ⟨faithful.got, nofun, faithful.acked⟩
  | packet hdr body env =>
    obtain ⟨c, here, mapped⟩ := Option.bind_eq_some_iff.mp next
    obtain ⟨after, received, rfl⟩ := Option.map_eq_some_iff.mp mapped
    obtain ⟨conn, sock⟩ := s
    cases here
    exact faithful.packet (packet_received guestCid received) whole

end Stream

/-- In every run in which the sockets take the bodies of the guest's packets, every byte is
written in order and no more is acknowledged. -/
theorem exec_faithful (guestCid : Nat) (ports : List PortMap) (as : List Action) (b : Bridge)
    (run : (Bridge.start guestCid ports).exec as = some b)
    (whole : Run.Meets Bridge.step (Bridge.Each Local.Whole) (Bridge.start guestCid ports) as) (x : Nat) :
    (b.stream x).Faithful :=
  Bridge.exec_streams (fun _ _ _ faithful fine next => faithful.step fine next) ⟨rfl, nofun, nofun⟩ whole
    run x

def writeRun (writes : List WriteResult) : List Action :=
  [.guest (packetOf .request 9000 2222 4096 0) [] { dial := some 7, placed := true },
    .guest (packetOf .rw 9000 2222 4096 0) [3, 4] { writes }]

/-- One byte at a time, with a stall between. -/
theorem exec_faithful_short : ∃ b, (Bridge.start 3 [⟨2222, .outbound⟩]).exec
    (writeRun [.wrote 1, .again, .wrote 1]) = some b ∧ (b.stream 0).Faithful :=
  ⟨_, rfl, exec_faithful 3 [⟨2222, .outbound⟩] (writeRun [.wrote 1, .again, .wrote 1]) _ rfl
    (by decide +kernel) 0⟩

/-- The peer closes after one byte; the connection stays, and two bytes are acknowledged. -/
theorem faithful_dropped : ∃ b, (Bridge.start 3 [⟨2222, .outbound⟩]).exec (writeRun [.wrote 1, .wrote 0]) =
    some b ∧ (b.stream 0).conn.map Connection.fwdCnt = some 2 ∧ ¬ (b.stream 0).Faithful := by
  refine ⟨_, rfl, rfl, fun faithful => ?_⟩
  exact absurd faithful.got (by decide)

end Machinen.Vsock
