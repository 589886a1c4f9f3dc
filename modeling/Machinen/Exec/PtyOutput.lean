import Machinen.Exec.Agreement

/-! The output of a terminal on its way to the client that is attached to it: by the pump of a
one-shot PTY, or by the broker of a persistent session and the proxy in front of it. -/
namespace Machinen.Exec.Pty

open Wire

structure Terminal where
  written : Bytes := []
  buffered : Bytes := []
  typed : Bytes := []
  opened : Bool := true
  exited : Option Nat := none
deriving DecidableEq, Repr

inductive Event where
  | write (bytes : Bytes)
  | hangUp
  | exit (code : Nat)
deriving DecidableEq, Repr

/-- What a poll of a descriptor reports, what a read then returns, and a chunk of input that
the other side has sent. -/
structure Poll where
  readable : Bool := false
  hangup : Bool := false
  count : Nat := 0
  input : Option Bytes := none
deriving DecidableEq, Repr

def Poll.reads (p : Poll) (bytes : Bytes) : Bool :=
  if bytes = [] then p.count = 0 else 1 ≤ p.count && p.count ≤ min chunkSize bytes.length

namespace Terminal

def workload (t : Terminal) : Event → Option Terminal
  | .write bytes =>
    if t.opened then some
      { t with written := t.written ++ bytes, buffered := t.buffered ++ bytes } else none
  | .hangUp => some { t with opened := false }
  | .exit code => if t.exited = none then some { t with exited := some code } else none

def polls (t : Terminal) (p : Poll) : Bool :=
  (!p.readable || ((t.buffered ≠ [] || !t.opened) && p.reads t.buffered)) && (!p.hangup || !t.opened)

def left (t : Terminal) (p : Poll) : Bytes := if p.readable then t.buffered.drop p.count else t.buffered

def read (t : Terminal) (p : Poll) : Terminal := { t with buffered := t.left p }

def type (t : Terminal) (chunk : Bytes) : Option Terminal :=
  if t.opened then some { t with typed := t.typed ++ chunk } else none

end Terminal

inductive Phase where
  | pumping | waiting | done
deriving DecidableEq, Repr

def outFrame (t : Terminal) (p : Poll) : Bytes :=
  if p.readable && 0 < p.count then sendFrame .out (t.buffered.take p.count) else []

structure OneShot where
  terminal : Terminal := {}
  phase : Phase := .pumping
  sent : Bytes := []
deriving DecidableEq, Repr

namespace OneShot

inductive Action where
  | workload (event : Event)
  | poll (p : Poll)
  | reap
deriving DecidableEq, Repr

/-- A turn of the pump: what is readable is read before a hang-up ends the pump. -/
def turn (s : OneShot) (p : Poll) : OneShot :=
  let eof := (p.readable && p.count == 0) || p.hangup
  let read := s.terminal.read p
  let sent := s.sent ++ outFrame s.terminal p
  match p.input with
  | none => { terminal := read, phase := if eof then .waiting else .pumping, sent }
  | some chunk =>
    match read.type chunk with
    | some typed => { terminal := typed, phase := if eof then .waiting else .pumping, sent }
    | none => { terminal := read, phase := .waiting, sent }

def step (s : OneShot) : Action → Option OneShot
  | .workload event => (s.terminal.workload event).map fun terminal => { s with terminal }
  | .poll p => if s.phase = .pumping ∧ s.terminal.polls p then some (s.turn p) else none
  | .reap =>
    if s.phase = .waiting then
      s.terminal.exited.map fun code => { s with phase := .done, sent := s.sent ++ sendExit code }
    else none

def drained (s : OneShot) : Action → Bool
  | .poll p => !(p.hangup || (p.input.isSome && !s.terminal.opened)) || s.terminal.left p = []
  | _ => true

end OneShot

structure Session where
  terminal : Terminal := {}
  phase : Phase := .pumping
  attached : Bool := true
  link : Bytes := []
  linkShut : Bool := false
  linkClosed : Bool := false
  proxying : Bool := true
  received : Bytes := []
deriving DecidableEq, Repr

namespace Session

inductive Action where
  | workload (event : Event)
  | broker (p : Poll)
  | finish
  | leave
  | proxy (p : Poll)
deriving DecidableEq, Repr

/-- A turn of `broker_event_loop`: a hang-up ends the session before anything is read. -/
def turn (s : Session) (p : Poll) : Session :=
  if p.hangup then { s with phase := .waiting }
  else if p.readable && p.count == 0 then { s with phase := .waiting }
  else
    let read := s.terminal.read p
    let link := if s.attached then s.link ++ outFrame s.terminal p else s.link
    match p.input with
    | none => { s with terminal := read, link }
    | some chunk =>
      match read.type chunk with
      | some typed => { s with terminal := typed, link }
      | none => { s with terminal := read, link, attached := false, linkClosed := true }

def polls (s : Session) (p : Poll) : Bool :=
  (!p.readable || ((s.link ≠ [] || s.linkShut || s.linkClosed) && p.reads s.link)) &&
    (!p.hangup || s.linkClosed)

def rest (s : Session) (p : Poll) : Bytes := if p.readable then s.link.drop p.count else s.link

/-- A turn of `proxy_session`: the client first, then the broker, then a hang-up. -/
def forward (s : Session) (p : Poll) : Session :=
  if p.input.isSome && s.linkClosed then { s with proxying := false }
  else if p.readable && p.count == 0 then { s with proxying := false }
  else { s with
    received := if p.readable then s.received ++ s.link.take p.count else s.received
    link := s.rest p
    proxying := !p.hangup }

def step (s : Session) : Action → Option Session
  | .workload event => (s.terminal.workload event).map fun terminal => { s with terminal }
  | .broker p =>
    if s.phase = .pumping ∧ s.terminal.polls p ∧
      (s.attached ∨ p.input = none) then some (s.turn p) else none
  | .finish =>
    if s.phase = .waiting then
      s.terminal.exited.map fun code => { s with
        phase := .done
        link := if s.attached then s.link ++ sendExit code else s.link
        linkShut := true }
    else none
  | .leave => if s.phase = .done then some { s with linkClosed := true } else none
  | .proxy p => if s.proxying ∧ s.polls p then some (s.forward p) else none

/-- The broker sees a hang-up when it has read everything, and takes no input after it; the
proxy stops when it has forwarded everything. -/
def drained (s : Session) : Action → Bool
  | .broker p =>
    if p.hangup then s.terminal.buffered = []
    else (p.readable && p.count == 0) || !p.input.isSome || s.terminal.opened
  | .proxy p =>
    (!(p.input.isSome && s.linkClosed) || s.link = []) && (!p.hangup || s.rest p = [])
  | _ => true

end Session

/-- A client has all the output in order, and then the exit status. -/
def Complete (written received : Bytes) : Prop :=
  ∃ (chunks : List Bytes) (code : Nat), received =
    framed (chunks.map fun chunk => (Stream.out, chunk)) code ∧ chunks.flatten = written

def outFrames (chunks : List Bytes) : Bytes := chunks.flatMap (sendFrame .out)

theorem framed_out (chunks : List Bytes) (code : Nat) :
    framed (chunks.map fun chunk => (Stream.out, chunk)) code = outFrames chunks ++ sendExit code := by
  unfold framed outFrames
  rw [List.flatMap_map]

theorem outFrames_snoc (chunks : List Bytes) (chunk : Bytes) :
    outFrames (chunks ++ [chunk]) = outFrames chunks ++ sendFrame .out chunk := by
  unfold outFrames
  rw [List.flatMap_append, List.flatMap_singleton]

theorem workload_cases {t u : Terminal} {event : Event} (stepped : t.workload event = some u) :
    (t.opened = false → u.opened = false) ∧
    ∃ more, u.written = t.written ++ more ∧ u.buffered = t.buffered ++ more ∧
      (t.opened = false → more = []) := by
  cases event with
  | write bytes =>
    unfold Terminal.workload at stepped
    dsimp only at stepped
    split at stepped
    · rename_i opened
      cases stepped
      refine ⟨id, bytes, rfl, rfl, fun closed => ?_⟩
      rw [closed] at opened
      cases opened
    · cases stepped
  | hangUp =>
    cases stepped
    exact ⟨fun _ => rfl, [], (List.append_nil _).symm, (List.append_nil _).symm, fun _ => rfl⟩
  | exit code =>
    unfold Terminal.workload at stepped
    dsimp only at stepped
    split at stepped
    · cases stepped
      exact ⟨id, [], (List.append_nil _).symm, (List.append_nil _).symm, fun _ => rfl⟩
    · cases stepped

theorem read_frames {t : Terminal} (p : Poll) {chunks : List Bytes}
    (whole : chunks.flatten ++ t.buffered = t.written) :
    ∃ more : List Bytes, more.flatten ++ t.left p = t.written ∧
      outFrames more = outFrames chunks ++ outFrame t p := by
  unfold Terminal.left outFrame
  cases readable : p.readable with
  | false => exact ⟨chunks, whole, (List.append_nil _).symm⟩
  | true =>
    by_cases some_ : 0 < p.count
    · refine ⟨chunks ++ [t.buffered.take p.count], ?_, ?_⟩
      · rw [if_pos rfl, List.flatten_append, List.flatten_singleton, List.append_assoc,
          List.take_append_drop]
        exact whole
      · rw [if_pos (by rw [Bool.true_and]; exact decide_eq_true some_)]
        exact outFrames_snoc ..
    · have none_ : p.count = 0 := Nat.eq_zero_of_not_pos some_
      refine ⟨chunks, ?_, ?_⟩
      · rw [if_pos rfl, none_, List.drop_zero]
        exact whole
      · rw [none_, if_neg (by exact nofun)]
        exact (List.append_nil _).symm

theorem polls_end {t : Terminal} {p : Poll} (polls : t.polls p = true) :
    (p.readable = true → p.count = 0 → t.buffered = [] ∧ t.opened = false) ∧
      (p.hangup = true → t.opened = false) := by
  unfold Terminal.polls Poll.reads at polls
  simp only [Bool.and_eq_true, Bool.or_eq_true, Bool.not_eq_true'] at polls
  obtain ⟨reads, hangs⟩ := polls
  refine ⟨fun readable none_ => ?_, fun hangup => ?_⟩
  · rcases reads with silent | ⟨ready, count⟩
    · rw [readable] at silent
      cases silent
    · by_cases empty : t.buffered = []
      · refine ⟨empty, ?_⟩
        rcases ready with some_ | closed
        · exact absurd empty (of_decide_eq_true some_)
        · exact closed
      · rw [if_neg empty, none_] at count
        cases count
  · rcases hangs with silent | closed
    · rw [hangup] at silent
      cases silent
    · exact closed

namespace OneShot

/-- What has been read has been sent, and a pump that has ended has left nothing. -/
def Whole (s : OneShot) : Prop :=
  ∃ chunks : List Bytes, chunks.flatten ++ s.terminal.buffered = s.terminal.written ∧
    (s.phase = .done → ∃ code, s.sent = outFrames chunks ++ sendExit code) ∧
    (s.phase ≠ .done → s.sent = outFrames chunks) ∧
    (s.phase ≠ .pumping → s.terminal.buffered = [] ∧ s.terminal.opened = false)

theorem turn_whole {s : OneShot} {p : Poll} (whole : s.Whole) (pumping : s.phase = .pumping)
    (polls : s.terminal.polls p = true) (drained : s.drained (.poll p) = true) : (s.turn p).Whole := by
  obtain ⟨chunks, flat, -, sent, -⟩ := whole
  obtain ⟨ends, hangs⟩ := polls_end polls
  obtain ⟨more, all, frames⟩ := read_frames p flat
  have left : ∀ eof : Bool, eof = ((p.readable && p.count == 0) || p.hangup) →
      (if eof = true then Phase.waiting else .pumping) ≠ .pumping →
      s.terminal.left p = [] ∧ s.terminal.opened = false := by
    rintro eof rfl ended
    by_cases hangup : p.hangup = true
    · refine ⟨?_, hangs hangup⟩
      simpa [OneShot.drained, hangup] using drained
    · rw [Bool.eq_false_iff.mpr hangup, Bool.or_false] at ended
      by_cases finished : (p.readable && p.count == 0) = true
      · simp only [Bool.and_eq_true, beq_iff_eq] at finished
        obtain ⟨empty, closed⟩ := ends finished.1 finished.2
        refine ⟨?_, closed⟩
        unfold Terminal.left
        rw [finished.1, finished.2, List.drop_zero, empty]
        rfl
      · rw [if_neg finished] at ended
        exact absurd rfl ended
  have running : ∀ eof : Bool, (if eof = true then Phase.waiting else .pumping) ≠ .done := by
    intro eof
    split <;> exact nofun
  unfold turn
  dsimp only
  rw [sent (by rw [pumping]; exact nofun), ← frames]
  cases input : p.input with
  | none =>
    exact ⟨more, all, fun done => absurd done (running _), fun _ => rfl, left _ rfl⟩
  | some chunk =>
    dsimp only
    cases opened : s.terminal.opened with
    | true =>
      have typed : (s.terminal.read p).type chunk =
        some { s.terminal.read p with typed := s.terminal.typed ++ chunk } :=
        if_pos opened
      rw [typed]
      exact ⟨more, all, fun done => absurd done (running _), fun _ => rfl, left _ rfl⟩
    | false =>
      have refused : (s.terminal.read p).type chunk = none := if_neg (by
        rw [show (s.terminal.read p).opened = s.terminal.opened from rfl, opened]
        exact nofun)
      rw [refused]
      refine ⟨more, all, nofun, fun _ => rfl, fun _ => ⟨?_, opened⟩⟩
      change s.terminal.left p = []
      simpa [OneShot.drained, input, opened] using drained

theorem step_whole {s t : OneShot} {action : Action} (whole : s.Whole) (drained : s.drained action = true)
    (stepped : s.step action = some t) : t.Whole := by
  cases action with
  | workload event =>
    obtain ⟨terminal, moved, rfl⟩ := Option.map_eq_some_iff.mp stepped
    obtain ⟨chunks, flat, done, sent, ended⟩ := whole
    obtain ⟨closes, more, written, buffered, silent⟩ := workload_cases moved
    refine ⟨chunks, ?_, done, sent, fun later => ?_⟩
    · rw [written, buffered, ← List.append_assoc, flat]
    · obtain ⟨empty, closed⟩ := ended later
      refine ⟨?_, closes closed⟩
      rw [buffered, empty, silent closed]
      rfl
  | poll p =>
    unfold step at stepped
    dsimp only at stepped
    split at stepped
    · rename_i ready
      cases stepped
      exact turn_whole whole ready.1 ready.2 drained
    · cases stepped
  | reap =>
    unfold step at stepped
    dsimp only at stepped
    split at stepped
    · rename_i waiting
      obtain ⟨code, -, rfl⟩ := Option.map_eq_some_iff.mp stepped
      obtain ⟨chunks, flat, -, sent, ended⟩ := whole
      refine ⟨chunks, flat, fun _ => ⟨code, ?_⟩, fun other => absurd rfl other,
        fun _ => ended (by rw [waiting]; exact nofun)⟩
      rw [← sent (by rw [waiting]; exact nofun)]
    · cases stepped

theorem start_whole : ({} : OneShot).Whole :=
  ⟨[], rfl, fun done => absurd done (by decide), fun _ => rfl, fun other => absurd rfl other⟩

theorem run_whole (actions : List Action) {s : OneShot} (run : Run.exec step {} actions = some s)
    (met : Run.Meets step (fun s action => s.drained action = true) {} actions) : s.Whole :=
  Run.exec_guarded (fun _ _ _ whole drained stepped => step_whole whole drained stepped) actions
    start_whole met run

end OneShot

namespace Session

structure Whole (s : Session) : Prop where
  attached : s.attached = true
  stream : ∃ chunks : List Bytes, chunks.flatten ++ s.terminal.buffered = s.terminal.written ∧
    (s.phase = .done → ∃ code, s.received ++ s.link = outFrames chunks ++ sendExit code) ∧
    (s.phase ≠ .done → s.received ++ s.link = outFrames chunks)
  ended : s.phase ≠ .pumping → s.terminal.buffered = [] ∧ s.terminal.opened = false
  shut : s.linkShut = true ∨ s.linkClosed = true → s.phase = .done
  stopped : s.proxying = false → s.link = [] ∧ s.phase = .done

theorem turn_whole {s : Session} {p : Poll} (whole : s.Whole) (pumping : s.phase = .pumping)
    (polls : s.terminal.polls p = true) (drained : s.drained (.broker p) = true) : (s.turn p).Whole := by
  obtain ⟨chunks, flat, -, sent⟩ := whole.stream
  have running : s.phase ≠ .done := by
    rw [pumping]
    exact nofun
  have open_ : ¬ (s.linkShut = true ∨ s.linkClosed = true) := fun shut => running (whole.shut shut)
  have proxying : ¬ s.proxying = false := fun stopped => running (whole.stopped stopped).2
  obtain ⟨ends, hangs⟩ := polls_end polls
  unfold Session.drained at drained
  dsimp only at drained
  unfold turn
  by_cases hangup : p.hangup = true
  · rw [if_pos hangup] at drained ⊢
    have empty : s.terminal.buffered = [] := of_decide_eq_true drained
    exact { whole with
      stream := ⟨chunks, flat, nofun, fun _ => sent running⟩
      ended := fun _ => ⟨empty, hangs hangup⟩
      shut := fun shut => absurd shut open_
      stopped := fun stopped => absurd stopped proxying }
  rw [if_neg hangup] at drained ⊢
  by_cases finished : (p.readable && p.count == 0) = true
  · rw [if_pos finished]
    simp only [Bool.and_eq_true, beq_iff_eq] at finished
    exact { whole with
      stream := ⟨chunks, flat, nofun, fun _ => sent running⟩
      ended := fun _ => ends finished.1 finished.2
      shut := fun shut => absurd shut open_
      stopped := fun stopped => absurd stopped proxying }
  rw [if_neg finished]
  obtain ⟨more, all, frames⟩ := read_frames p flat
  have linked : s.received ++ (s.link ++ outFrame s.terminal p) = outFrames more := by
    rw [frames, ← sent running, List.append_assoc]
  dsimp only
  rw [if_pos whole.attached]
  cases input : p.input with
  | none =>
    exact { whole with
      stream := ⟨more, all, fun done => absurd done running, fun _ => linked⟩
      ended := fun other => absurd pumping other
      stopped := fun stopped => absurd stopped proxying }
  | some chunk =>
    have opened : s.terminal.opened = true := by
      rw [Bool.eq_false_iff.mpr finished, input] at drained
      simpa using drained
    have typed : (s.terminal.read p).type chunk =
      some { s.terminal.read p with typed := s.terminal.typed ++ chunk } :=
      if_pos opened
    dsimp only
    rw [typed]
    exact { whole with
      stream := ⟨more, all, fun done => absurd done running, fun _ => linked⟩
      ended := fun other => absurd pumping other
      stopped := fun stopped => absurd stopped proxying }

theorem forward_whole {s : Session} {p : Poll} (whole : s.Whole) (polls : s.polls p = true)
    (drained : s.drained (.proxy p) = true) : (s.forward p).Whole := by
  obtain ⟨chunks, flat, done, sent⟩ := whole.stream
  unfold Session.drained at drained
  simp only [Bool.and_eq_true, Bool.or_eq_true, Bool.not_eq_true', decide_eq_true_eq] at drained
  obtain ⟨typing, hanging⟩ := drained
  unfold Session.polls at polls
  simp only [Bool.and_eq_true, Bool.or_eq_true, Bool.not_eq_true'] at polls
  obtain ⟨reads, hangs⟩ := polls
  unfold forward
  by_cases refused : (p.input.isSome && s.linkClosed) = true
  · rw [if_pos refused]
    have closed := (Bool.and_eq_true_iff.mp refused).2
    have empty : s.link = [] := by
      rcases typing with silent | empty
      · rw [refused] at silent
        cases silent
      · exact empty
    exact { whole with stopped := fun _ => ⟨empty, whole.shut (.inr closed)⟩ }
  rw [if_neg refused]
  by_cases finished : (p.readable && p.count == 0) = true
  · rw [if_pos finished]
    simp only [Bool.and_eq_true, beq_iff_eq] at finished
    refine { whole with stopped := fun _ => ?_ }
    rcases reads with silent | ⟨ready, count⟩
    · rw [finished.1] at silent
      cases silent
    · unfold Poll.reads at count
      by_cases empty : s.link = []
      · refine ⟨empty, whole.shut ?_⟩
        rcases ready with (some_ | shut) | closed
        · exact absurd empty (of_decide_eq_true some_)
        · exact .inl shut
        · exact .inr closed
      · rw [if_neg empty, finished.2] at count
        cases count
  rw [if_neg finished]
  have moved : (if p.readable = true then s.received ++ s.link.take p.count else s.received) ++ s.rest p =
      s.received ++ s.link := by
    unfold rest
    split
    · rw [List.append_assoc, List.take_append_drop]
    · rfl
  refine { whole with
    stream := ⟨chunks, flat, fun ended => moved ▸ done ended, fun running => moved.trans (sent running)⟩
    stopped := fun stopped => ?_ }
  have hangup : p.hangup = true := by simpa using stopped
  refine ⟨?_, whole.shut (.inr ?_)⟩
  · rcases hanging with silent | empty
    · rw [hangup] at silent
      cases silent
    · exact empty
  · rcases hangs with silent | closed
    · rw [hangup] at silent
      cases silent
    · exact closed

theorem step_whole {s t : Session} {action : Action} (whole : s.Whole) (drained : s.drained action = true)
    (stepped : s.step action = some t) : t.Whole := by
  cases action with
  | workload event =>
    obtain ⟨terminal, moved, rfl⟩ := Option.map_eq_some_iff.mp stepped
    obtain ⟨chunks, flat, done, sent⟩ := whole.stream
    obtain ⟨closes, more, written, buffered, silent⟩ := workload_cases moved
    refine { whole with stream := ⟨chunks, ?_, done, sent⟩, ended := fun later => ?_ }
    · rw [written, buffered, ← List.append_assoc, flat]
    · obtain ⟨empty, closed⟩ := whole.ended later
      refine ⟨?_, closes closed⟩
      rw [buffered, empty, silent closed]
      rfl
  | broker p =>
    unfold step at stepped
    dsimp only at stepped
    split at stepped
    · rename_i ready
      cases stepped
      exact turn_whole whole ready.1 ready.2.1 drained
    · cases stepped
  | finish =>
    unfold step at stepped
    dsimp only at stepped
    split at stepped
    · rename_i waiting
      obtain ⟨code, -, rfl⟩ := Option.map_eq_some_iff.mp stepped
      obtain ⟨chunks, flat, -, sent⟩ := whole.stream
      have running : s.phase ≠ .done := by
        rw [waiting]
        exact nofun
      refine { whole with
        stream := ⟨chunks, flat, fun _ => ⟨code, ?_⟩, fun other => absurd rfl other⟩
        ended := fun _ => whole.ended (by rw [waiting]; exact nofun)
        shut := fun _ => rfl
        stopped := fun stopped => absurd (whole.stopped stopped).2 running }
      dsimp only
      rw [if_pos whole.attached, ← List.append_assoc, sent running]
    · cases stepped
  | leave =>
    unfold step at stepped
    dsimp only at stepped
    split at stepped
    · rename_i done
      cases stepped
      exact { whole with shut := fun _ => done }
    · cases stepped
  | proxy p =>
    unfold step at stepped
    dsimp only at stepped
    split at stepped
    · rename_i ready
      cases stepped
      exact forward_whole whole ready.2 drained
    · cases stepped

theorem start_whole : ({} : Session).Whole where
  attached := rfl
  stream := ⟨[], rfl, fun done => absurd done (by decide), fun _ => rfl⟩
  ended := fun other => absurd rfl other
  shut := fun shut => absurd shut (by decide)
  stopped := fun stopped => absurd stopped (by decide)

theorem run_whole (actions : List Action) {s : Session} (run : Run.exec step {} actions = some s)
    (met : Run.Meets step (fun s action => s.drained action = true) {} actions) : s.Whole :=
  Run.exec_guarded (fun _ _ _ whole drained stepped => step_whole whole drained stepped) actions
    start_whole met run

end Session

/-- In every run in which whoever ends the connection has left nothing to read, a client of a
one-shot PTY that has been sent everything, and a client of a session whose proxy has stopped,
have all the output of the workload and then its exit status. -/
theorem pty_output_complete (alone : List OneShot.Action) (s : OneShot) (shared : List Session.Action)
    (t : Session) :
    (Run.exec OneShot.step {} alone = some s →
      Run.Meets OneShot.step (fun s action => s.drained action = true) {} alone →
      s.phase = .done → Complete s.terminal.written s.sent) ∧
    (Run.exec Session.step {} shared = some t →
      Run.Meets Session.step (fun s action => s.drained action = true) {} shared →
      t.proxying = false → Complete t.terminal.written t.received) := by
  constructor
  · intro run met done
    obtain ⟨chunks, flat, sent, -, ended⟩ := OneShot.run_whole alone run met
    obtain ⟨code, all⟩ := sent done
    obtain ⟨empty, -⟩ := ended (by rw [done]; exact nofun)
    refine ⟨chunks, code, all.trans (framed_out chunks code).symm, ?_⟩
    rw [← flat, empty, List.append_nil]
  · intro run met stopped
    have whole := Session.run_whole shared run met
    obtain ⟨drained, done⟩ := whole.stopped stopped
    obtain ⟨chunks, flat, sent, -⟩ := whole.stream
    obtain ⟨code, all⟩ := sent done
    obtain ⟨empty, -⟩ := whole.ended (by rw [done]; exact nofun)
    rw [drained, List.append_nil] at all
    refine ⟨chunks, code, all.trans (framed_out chunks code).symm, ?_⟩
    rw [← flat, empty, List.append_nil]

theorem complete_delivered {written received : Bytes} (complete : Complete written received)
    {events : List Bytes} (split : events.flatten = received) :
    ∃ p code, ingestPtyOutput events = .ok p ∧ p.exitCode = some (some (code : Int)) ∧
      p.delivered .out = written := by
  obtain ⟨chunks, code, rfl, flat⟩ := complete
  obtain ⟨p, parsed, exited, delivered⟩ := @frames_delivered [.out] _ _ _ (fun chunk listed => by
    obtain ⟨bytes, -, rfl⟩ := List.mem_map.mp listed
    exact List.mem_singleton_self _) split
  exact ⟨p, code, parsed, exited, (delivered .out).trans ((payloads_out chunks).trans flat)⟩

def oneShotRun : List OneShot.Action :=
  [.workload (.write [0x68]), .poll { readable := true, count := 1 }, .workload .hangUp,
    .workload (.exit 0), .poll { hangup := true }, .reap]

def sessionRun : List Session.Action :=
  [.workload (.write [0x68]), .broker { readable := true, count := 1 },
    .proxy { readable := true, count := 5 },
    .workload .hangUp, .workload (.exit 0), .broker { hangup := true }, .finish,
    .proxy { readable := true, count := 4 }, .leave, .proxy { hangup := true }]

theorem pty_output_complete_read :
    (∃ s, Run.exec OneShot.step {} oneShotRun = some s ∧ Complete s.terminal.written s.sent) ∧
    (∃ s, Run.exec Session.step {} sessionRun = some s ∧ Complete s.terminal.written s.received) :=
  have complete := pty_output_complete oneShotRun _ sessionRun _
  ⟨⟨_, rfl, complete.1 rfl (by decide) rfl⟩, ⟨_, rfl, complete.2 rfl (by decide) rfl⟩⟩

theorem complete_unique {written : Bytes} {chunks : List Bytes} {code : Nat}
    (complete : Complete written (framed (chunks.map fun chunk => (Stream.out, chunk)) code)) :
    written = chunks.flatten := by
  have other : Complete chunks.flatten (framed (chunks.map fun chunk => (Stream.out, chunk)) code) :=
    ⟨chunks, code, rfl, rfl⟩
  obtain ⟨p, _, parsed, -, delivered⟩ := complete_delivered complete List.flatten_singleton
  obtain ⟨q, _, parsed', -, delivered'⟩ := complete_delivered other List.flatten_singleton
  cases Except.ok.inj (parsed.symm.trans parsed')
  exact delivered.symm.trans delivered'

/-- A poll that reports readable and hang-up at once: the pump of a one-shot PTY reads one
chunk of the output, the broker of a session reads nothing of it. -/
theorem hangup_loses_output :
    (∃ actions s, Run.exec OneShot.step {} actions = some s ∧ s.phase = .done ∧
      ¬ Complete s.terminal.written s.sent) ∧
    (∃ actions s, Run.exec Session.step {} actions = some s ∧ s.proxying = false ∧
      ¬ Complete s.terminal.written s.received) := by
  constructor
  · obtain ⟨bytes, long⟩ : ∃ bytes : Bytes, bytes.length = chunkSize + 1 :=
      ⟨_, List.length_replicate (a := (0 : UInt8))⟩
    have some_ : bytes ≠ [] := by
      rintro rfl
      cases long
    have polls : Terminal.polls { written := bytes, buffered := bytes, opened := false, exited := some 0 }
        { readable := true, hangup := true, count := chunkSize } = true := by
      unfold Terminal.polls Poll.reads
      rw [if_neg some_, long]
      simp [some_, show 1 ≤ chunkSize by decide]
    let ended : OneShot := {
      terminal := { written := bytes, buffered := bytes.drop chunkSize, opened := false, exited := some 0 }
      phase := .done
      sent := outFrames [bytes.take chunkSize] ++ sendExit 0 }
    refine ⟨[.workload (.write bytes), .workload .hangUp, .workload (.exit 0),
      .poll { readable := true, hangup := true, count := chunkSize }, .reap], ended, ?_, rfl,
      fun complete => ?_⟩
    · have turned : OneShot.turn
          { terminal := { written := bytes, buffered := bytes, opened := false, exited := some 0 } }
          { readable := true, hangup := true, count := chunkSize } =
          { ended with phase := .waiting, sent := outFrames [bytes.take chunkSize] } := by
        unfold outFrames
        rw [List.flatMap_singleton]
        rfl
      simp only [Run.exec, OneShot.step, Terminal.workload, Option.map_some, Option.bind_some, if_true,
        List.nil_append, polls, and_self, turned]
      rfl
    · rw [show ended.sent = _ from (framed_out [bytes.take chunkSize] 0).symm] at complete
      have lost : bytes = [bytes.take chunkSize].flatten := complete_unique complete
      have short : bytes.length = chunkSize := by
        rw [lost, List.flatten_singleton, List.length_take, long]
        rfl
      rw [long] at short
      cases short
  · refine ⟨[.workload (.write [0x61]), .workload .hangUp, .workload (.exit 0),
      .broker { readable := true, hangup := true, count := 1 }, .finish, .leave,
      .proxy { readable := true, hangup := true, count := 4 }], _, rfl, rfl, fun complete => ?_⟩
    have lost := @complete_unique _ [] 0 complete
    cases lost

end Machinen.Exec.Pty
