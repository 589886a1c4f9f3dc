import Machinen.Exec.Agreement

/-! A call of the host that runs a command, with its attempts: every attempt has a connection of
its own to the agent, and an error that counts as transient leads to another attempt. -/
namespace Machinen.Exec.Retry

open Wire

/-- What ends an attempt: an error of the socket or of a callback with its code and message, or
an error of the host's own. -/
inductive AgentError where
  | thrown (code message : String)
  | closedBeforeExit
  | timedOut
  | protocol (error : ExecError)
  | unavailable
deriving DecidableEq, Repr

/-- The text of the host's own errors never has the phrase of a connection that was closed, but
for that error; a field of a header has no space in it. -/
def isTransientAgentError : AgentError → Bool
  | .thrown code message =>
    code == "EPIPE" || code == "ECONNRESET" ||
      decide ("agent closed connection before X frame".toList <:+: message.toList)
  | .closedBeforeExit => true
  | .timedOut | .protocol _ | .unavailable => false

/-- A connection: what the host has written and the agent has not read, what the agent has
sent and the host has not read. -/
structure Attempt where
  pending : Bytes
  arrived : Bytes := []
  started : Bool := false
  gone : Bool := false
  back : Bytes := []
  parser : Parser := {}

inductive GuestEvent where
  | arrive (count : Nat)
  | start
  | send (bytes : Bytes)
  | leave
deriving DecidableEq, Repr

namespace Attempt

def guest (a : Attempt) : GuestEvent → Option Attempt
  | .arrive count => some { a with
      arrived := a.arrived ++ a.pending.take count
      pending := a.pending.drop count }
  | .start =>
    if a.started || a.gone then none
    else match handleConnection a.arrived with
      | .request (.command _) _ => some { a with started := true }
      | _ => none
  | .send bytes => if a.started && !a.gone then some { a with back := a.back ++ bytes } else none
  | .leave => some { a with gone := true }

end Attempt

structure ExecResult where
  exitCode : Option Int
  output : Stream → Bytes

structure Call where
  request : Bytes
  callback : Stream → Bool
  current : Option Attempt := none
  older : List Attempt := []
  trying : Bool := false
  outcome : Option (Except AgentError ExecResult) := none

inductive HostEvent where
  | data (count : Nat)
  | error (e : AgentError)
  | close
  | timeout
deriving DecidableEq, Repr

inductive Action where
  | connect
  | giveUp
  | host (event : HostEvent)
  | guest (event : GuestEvent)
  | older (index : Nat) (event : GuestEvent)
deriving DecidableEq, Repr

namespace Call

def start (cmd : Bytes) (callback : Stream → Bool) : Option Call :=
  (HostRequest.run cmd).write.map fun request => { request, callback }

def fail (s : Call) (e : AgentError) : Call :=
  if isTransientAgentError e then { s with trying := false }
  else { s with trying := false, outcome := some (.error e) }

def finish (s : Call) (a : Attempt) : Call :=
  match a.parser.exitCode with
  | none => s.fail .closedBeforeExit
  | some exitCode => { s with
      trying := false
      outcome := some (.ok
        { exitCode, output := fun stream => if s.callback stream then [] else a.parser.delivered stream }) }

/-- An event of the socket of the current attempt. What comes before a bad header may be taken as
a data event of its own. -/
def host (s : Call) (a : Attempt) : HostEvent → Call
  | .data count =>
    match Parser.ingest parseExecHeaderLine a.parser (a.back.take count) with
    | .ok parser => { s with current := some { a with back := a.back.drop count, parser } }
    | .error e => s.fail (.protocol e)
  | .error e => s.fail e
  | .close => s.finish a
  | .timeout => s.fail .timedOut

def step (s : Call) : Action → Option Call
  | .connect =>
    if !s.trying && s.outcome.isNone then
      some { s with current := some { pending := s.request }, older := s.current.toList ++ s.older, trying := true }
    else none
  | .giveUp =>
    if !s.trying && s.outcome.isNone then some { s with outcome := some (.error .unavailable) } else none
  | .host event => if s.trying then s.current.map fun a => s.host a event else none
  | .guest event => s.current.bind fun a => (a.guest event).map fun b => { s with current := some b }
  | .older index event =>
    s.older[index]?.bind fun a => (a.guest event).map fun b => { s with older := s.older.set index b }

def attempts (s : Call) : List Attempt := s.current.toList ++ s.older

def executions (s : Call) : Nat := s.attempts.countP (·.started)

/-- What a callback was passed, over all attempts; without a callback, what was returned. -/
def output (s : Call) (stream : Stream) : Bytes :=
  if s.callback stream then s.attempts.reverse.flatMap fun a => a.parser.delivered stream
  else match s.outcome with
    | some (.ok result) => result.output stream
    | _ => []

def Single (s : Call) : Prop :=
  (∀ stream, s.output stream = []) ∨
    ∃ a ∈ s.attempts, a.started = true ∧ ∀ stream,
    s.output stream = [] ∨ s.output stream = a.parser.delivered stream

def retries (a : Attempt) : HostEvent → Bool
  | .data _ | .timeout => false
  | .error e => isTransientAgentError e
  | .close => a.parser.exitCode.isNone

/-- The host gives up no connection on which the agent has started the command, and the agent
starts none that the host has given up. -/
def kept (s : Call) : Action → Bool
  | .host event => s.current.all fun a => !(a.started && retries a event)
  | .guest .start => s.trying || s.outcome.isSome
  | .older _ .start => false
  | _ => true

end Call

structure Quiet (a : Attempt) : Prop where
  started : a.started = false
  back : a.back = []
  parser : a.parser = {}

variable {a : Attempt} {s : Call}

theorem guest_quiet {b : Attempt} {event : GuestEvent} (quiet : Quiet a) (idle : event ≠ .start)
    (moved : a.guest event = some b) : Quiet b := by
  cases event with
  | arrive count =>
    cases moved
    exact ⟨quiet.started, quiet.back, quiet.parser⟩
  | start => exact absurd rfl idle
  | send bytes =>
    unfold Attempt.guest at moved
    dsimp only at moved
    rw [quiet.started, Bool.false_and, if_neg nofun] at moved
    cases moved
  | leave =>
    cases moved
    exact ⟨quiet.started, quiet.back, quiet.parser⟩

theorem guest_keeps {b : Attempt} {event : GuestEvent} (moved : a.guest event = some b) :
    b.parser = a.parser ∧ (a.started = true → b.started = true) ∧
      (b.started = false → Quiet a → Quiet b) := by
  by_cases starts : event = .start
  · subst starts
    unfold Attempt.guest at moved
    dsimp only at moved
    split at moved
    · cases moved
    · split at moved
      · cases moved
        exact ⟨rfl, fun _ => rfl, fun quiet => absurd quiet nofun⟩
      · cases moved
  · refine ⟨?_, ?_, fun _ quiet => guest_quiet quiet starts moved⟩
    all_goals
      cases event with
      | start => exact absurd rfl starts
      | send bytes =>
        unfold Attempt.guest at moved
        dsimp only at moved
        split at moved
        · cases moved
          first | rfl | exact id
        · cases moved
      | arrive count =>
        cases moved
        first | rfl | exact id
      | leave =>
        cases moved
        first | rfl | exact id

namespace Call

structure Once (s : Call) : Prop where
  older : ∀ a ∈ s.older, Quiet a
  current : ∀ a, s.current = some a → a.started = false → Quiet a
  waiting : s.trying = false → s.outcome = none → ∀ a, s.current = some a → Quiet a
  returned : ∀ result, s.outcome = some (.ok result) →
    ∃ a, s.current = some a ∧ ∀ stream, result.output stream = [] ∨
      result.output stream = a.parser.delivered stream
  settled : s.trying = true → s.outcome = none

theorem start_once {cmd : Bytes} {callback : Stream → Bool}
    (started : start cmd callback = some s) : s.Once := by
  obtain ⟨request, -, rfl⟩ := Option.map_eq_some_iff.mp started
  exact ⟨nofun, nofun, nofun, nofun, nofun⟩

theorem fail_once (once : s.Once) (trying : s.trying = true) (current : s.current = some a)
    {e : AgentError} (kept : isTransientAgentError e = true → a.started = false) : (s.fail e).Once := by
  have silent := once.settled trying
  unfold fail
  split
  · rename_i transient
    refine { once with
      waiting := fun _ _ b same => ?_
      settled := nofun }
    cases current.symm.trans same
    exact once.current a current (kept transient)
  · exact { once with
      waiting := fun _ none_ => nomatch none_
      returned := nofun
      settled := nofun }

theorem host_once {event : HostEvent} (once : s.Once) (trying : s.trying = true)
    (current : s.current = some a) (kept : s.kept (.host event) = true) : (s.host a event).Once := by
  have safe : retries a event = true → a.started = false := by
    intro again
    unfold Call.kept at kept
    rw [current] at kept
    simpa [again] using kept
  have silent := once.settled trying
  cases event with
  | data count =>
    unfold host
    dsimp only
    cases parsed : Parser.ingest parseExecHeaderLine a.parser (a.back.take count) with
    | error e => exact fail_once once trying current nofun
    | ok parser =>
      refine { once with
        current := fun b same idle => ?_
        waiting := fun stopped => absurd (trying.symm.trans stopped) nofun
        returned := fun result done => nomatch silent.symm.trans done }
      cases same
      have quiet := once.current a current idle
      rw [quiet.back, quiet.parser, List.take_nil] at parsed
      cases parsed
      refine ⟨idle, ?_, rfl⟩
      show a.back.drop count = []
      rw [quiet.back, List.drop_nil]
  | error e => exact fail_once once trying current safe
  | close =>
    unfold host finish
    dsimp only
    cases code : a.parser.exitCode with
    | none => exact fail_once once trying current fun _ => safe (by simp only [retries, code, Option.isNone_none])
    | some exitCode =>
      refine { once with
        waiting := fun _ none_ => nomatch none_
        returned := fun result done => ⟨a, current, fun stream => ?_⟩
        settled := nofun }
      cases done
      dsimp only
      split
      · exact .inl rfl
      · exact .inr rfl
  | timeout => exact fail_once once trying current nofun

theorem step_once {t : Call} {action : Action} (once : s.Once) (kept : s.kept action = true)
    (stepped : s.step action = some t) : t.Once := by
  unfold step at stepped
  cases action with
  | connect =>
    dsimp only at stepped
    split at stepped
    · rename_i idle
      cases stepped
      simp only [Bool.and_eq_true, Bool.not_eq_true', Option.isNone_iff_eq_none] at idle
      obtain ⟨stopped, silent⟩ := idle
      refine ⟨fun a listed => ?_, fun a same _ => ?_, nofun,
        fun result done => (nomatch silent.symm.trans done), fun _ => silent⟩
      · rcases List.mem_append.mp listed with now | before
        · exact once.waiting stopped silent a (Option.mem_toList.mp now)
        · exact once.older a before
      · cases same
        exact ⟨rfl, rfl, rfl⟩
    · cases stepped
  | giveUp =>
    dsimp only at stepped
    split at stepped
    · rename_i idle
      cases stepped
      simp only [Bool.and_eq_true, Bool.not_eq_true'] at idle
      exact { once with
        waiting := fun _ none_ => nomatch none_
        returned := nofun
        settled := fun trying => nomatch idle.1.symm.trans trying }
    · cases stepped
  | host event =>
    dsimp only at stepped
    split at stepped
    · rename_i trying
      obtain ⟨a, current, rfl⟩ := Option.map_eq_some_iff.mp stepped
      exact host_once once trying current kept
    · cases stepped
  | guest event =>
    obtain ⟨a, current, more⟩ := Option.bind_eq_some_iff.mp stepped
    obtain ⟨b, moved, rfl⟩ := Option.map_eq_some_iff.mp more
    obtain ⟨parser, stays, quiet⟩ := guest_keeps moved
    refine { once with
      current := fun c same idle => ?_
      waiting := fun stopped silent c same => ?_
      returned := fun result done => ?_ }
    · cases same
      refine quiet idle (once.current a current ?_)
      cases started : a.started with
      | false => rfl
      | true => exact absurd ((stays started).symm.trans idle) nofun
    · cases same
      refine guest_quiet (once.waiting stopped silent a current) ?_ moved
      rintro rfl
      unfold Call.kept at kept
      rw [show s.trying = false from stopped, show s.outcome = none from silent] at kept
      cases kept
    · obtain ⟨c, same, from_⟩ := once.returned result done
      cases current.symm.trans same
      exact ⟨b, rfl, parser ▸ from_⟩
  | older index event =>
    obtain ⟨a, listed, more⟩ := Option.bind_eq_some_iff.mp stepped
    obtain ⟨b, moved, rfl⟩ := Option.map_eq_some_iff.mp more
    refine { once with older := fun c among => ?_ }
    rcases List.mem_or_eq_of_mem_set among with before | rfl
    · exact once.older c before
    · refine guest_quiet (once.older a (List.mem_of_getElem? listed)) ?_ moved
      rintro rfl
      cases kept

theorem older_idle (once : s.Once) : s.older.countP (·.started) = 0 := by
  refine List.countP_eq_zero.mpr fun a listed => ?_
  rw [(once.older a listed).started]
  exact nofun

theorem once_executions (once : s.Once) : s.executions ≤ 1 := by
  unfold executions attempts
  rw [List.countP_append, older_idle once, Nat.add_zero]
  refine Nat.le_trans List.countP_le_length ?_
  cases s.current with
  | none => exact Nat.zero_le 1
  | some a => exact Nat.le_refl 1

theorem quiet_delivered {as : List Attempt} (quiet : ∀ a ∈ as, Quiet a) (stream : Stream) :
    as.flatMap (fun a => a.parser.delivered stream) = [] := by
  refine List.flatMap_eq_nil_iff.mpr fun a listed => ?_
  rw [(quiet a listed).parser]

theorem once_output (once : s.Once) (stream : Stream) :
    s.output stream = [] ∨ ∃ a, s.current = some a ∧ s.output stream = a.parser.delivered stream := by
  unfold output
  split
  · rw [attempts, List.reverse_append, List.flatMap_append, quiet_delivered (fun a listed =>
      once.older a (List.mem_reverse.mp listed)), List.nil_append]
    cases current : s.current with
    | none => exact .inl rfl
    | some a => exact .inr ⟨a, rfl, List.append_nil _⟩
  · split
    · rename_i result done
      obtain ⟨a, current, from_⟩ := once.returned result done
      exact (from_ stream).imp id fun same => ⟨a, current, same⟩
    · exact .inl rfl

theorem once_single (once : s.Once) : s.Single := by
  cases current : s.current with
  | none =>
    refine .inl fun stream => (once_output once stream).resolve_right ?_
    rintro ⟨a, same, -⟩
    cases current.symm.trans same
  | some a =>
    have from_ : ∀ stream, s.output stream = [] ∨ s.output stream = a.parser.delivered stream :=
      fun stream =>
      (once_output once stream).imp id fun ⟨b, same, output⟩ => by
        cases current.symm.trans same
        exact output
    cases started : a.started with
    | false =>
      refine .inl fun stream => (from_ stream).elim id fun output => ?_
      rw [output, (once.current a current started).parser]
    | true =>
      refine .inr ⟨a, List.mem_append_left _ ?_, started, from_⟩
      rw [current]
      exact List.mem_singleton_self a

end Call

/-- In every run of a call in which the host gives up no connection on which the agent has
started the command, and the agent starts none that the host has given up, the command is started
at most once and all output comes from that execution. -/
theorem exec_at_most_once {cmd : Bytes} {callback : Stream → Bool} {s t : Call}
    (started : Call.start cmd callback = some s)
    (actions : List Action) (run : Run.exec Call.step s actions = some t)
    (met : Run.Meets Call.step (fun s action => s.kept action = true) s actions) :
    t.executions ≤ 1 ∧ t.Single := by
  have once : t.Once :=
    Run.exec_guarded (fun _ _ _ once kept stepped => Call.step_once once kept stepped) actions
      (Call.start_once started) met run
  exact ⟨Call.once_executions once, Call.once_single once⟩

def listing : Call := { request := text "EXEC ls\n", callback := fun _ => true }

def reply : Bytes := [0x4f, 0x20, 0x31, 0x0a, 0x78, 0x58, 0x20, 0x30, 0x0a]

def refusedRun : List Action :=
  [.connect, .guest (.arrive 3), .host .close, .connect, .guest (.arrive 8), .guest .start,
    .guest (.send reply), .host (.data 9), .host .close]

theorem exec_at_most_once_refused :
    Call.start (text "ls") (fun _ => true) = some listing ∧
    ∃ t, Run.exec Call.step listing refusedRun = some t ∧ t.output .out = [0x78] ∧ t.executions ≤ 1 ∧
      t.Single :=
  ⟨rfl, _, rfl, by
    decide, exec_at_most_once (rfl : Call.start (text "ls") (fun _ => true) = some listing) refusedRun rfl
    (by decide)⟩

/-- A first connection that is closed when the agent has sent some output. -/
theorem exec_twice :
    ∃ s actions t, Call.start (text "ls") (fun _ => true) = some s ∧ Run.exec Call.step s actions = some t ∧
      t.executions = 2 ∧ ¬ t.Single := by
  refine ⟨listing, [.connect, .guest (.arrive 8), .guest .start, .guest (.send reply), .host (.data 5),
    .host .close,
    .connect, .guest (.arrive 8), .guest .start, .guest (.send reply), .host (.data 9), .host .close], _,
    rfl, rfl,
    by decide, fun single => ?_⟩
  rcases single with silent | ⟨a, listed, -, from_⟩
  · exact absurd (silent .out) (by decide)
  · rcases from_ .out with silent | same
    · exact absurd silent (by decide)
    · rcases List.mem_cons.mp listed with rfl | before
      · exact absurd same (by decide)
      · cases List.mem_singleton.mp before
        exact absurd same (by decide)

end Machinen.Exec.Retry
