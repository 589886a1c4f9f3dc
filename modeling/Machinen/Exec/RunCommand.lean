import Machinen.Lib.Run
import Machinen.Lib.Bytes

/-! A command of the guest and the agent that drains its two pipes. The agent reads the
standard output to its end before it looks at the standard error; the host takes every
frame that it is sent. -/
namespace Machinen.Exec

inductive Stream where
  | out | err
deriving DecidableEq, Repr

/-- What the command and its descendants do to the pipes, one byte at a time. -/
inductive Op where
  | write (stream : Stream) (byte : UInt8)
  | close (stream : Stream)
  | exit (code : Nat)
deriving DecidableEq, Repr

abbrev Command := Nat → Op

structure Pipe where
  bytes : Bytes := []
  writable : Bool := true
deriving DecidableEq, Repr

/-- Where `run_command` stands after the fork. -/
inductive Pump where
  | reading (stream : Stream)
  | sending (stream : Stream) (chunk : Bytes)
  | waiting
  | done
deriving DecidableEq, Repr

inductive Frame where
  | output (stream : Stream) (payload : Bytes)
  | exited (code : Nat)
deriving DecidableEq, Repr

structure System where
  position : Nat := 0
  exited : Option Nat := none
  pipe : Stream → Pipe := fun _ => {}
  pump : Pump := .reading .out
  frames : List Frame := []

def chunkSize : Nat := 32 * 1024

inductive Party where
  | command | agent
deriving DecidableEq, Repr

namespace System

def setPipe (s : System) (stream : Stream) (pipe : Pipe) : System :=
  { s with pipe := Function.update s.pipe stream pipe }

/-- A write to a stream that is closed fails, and to a pipe that is full waits. -/
def stepCommand (capacity : Nat) (command : Command) (s : System) : Option System :=
  if s.exited.isSome then none
  else
    let next := { s with position := s.position + 1 }
    match command s.position with
    | .write stream byte =>
      let pipe := s.pipe stream
      if !pipe.writable then some next
      else if pipe.bytes.length < capacity then
        some (next.setPipe stream { pipe with bytes := pipe.bytes ++ [byte] })
      else none
    | .close stream => some (next.setPipe stream { s.pipe stream with writable := false })
    | .exit code => some { s with
        exited := some code
        pipe := fun stream => { s.pipe stream with writable := false } }

/-- The pump after the one of a stream has come to the end of its file. -/
def afterEnd : Stream → Pump
  | .out => .reading .err
  | .err => .waiting

def stepAgent (s : System) : Option System :=
  match s.pump with
  | .reading stream =>
    let pipe := s.pipe stream
    if pipe.bytes ≠ [] then
      some { s.setPipe stream { pipe with bytes := pipe.bytes.drop chunkSize } with
        pump := .sending stream (pipe.bytes.take chunkSize) }
    else if pipe.writable then none
    else some { s with pump := afterEnd stream }
  | .sending stream chunk =>
    some { s with pump := .reading stream, frames := s.frames ++ [.output stream chunk] }
  | .waiting => s.exited.map fun code => { s with pump := .done, frames := s.frames ++ [.exited code] }
  | .done => none

def step (capacity : Nat) (command : Command) (s : System) : Party → Option System
  | .command => s.stepCommand capacity command
  | .agent => s.stepAgent

/-- The command is kept from its next step by a pipe that is full. -/
def Blocked (capacity : Nat) (command : Command) (s : System) : Prop :=
  s.exited = none ∧ ∃ stream byte, command s.position = .write stream byte ∧
    (s.pipe stream).writable = true ∧ capacity ≤ (s.pipe stream).bytes.length

end System

open Exec.System

/-- The streams that a command has closed before some position. -/
def closedBefore (command : Command) (stream : Stream) (position : Nat) : Bool :=
  (List.range position).any fun i => command i = .close stream

/-- The bytes that a command has written to a stream before some position. -/
def writtenBefore (command : Command) (stream : Stream) : Nat → Bytes
  | 0 => []
  | position + 1 => writtenBefore command stream position ++
    match command position with
    | .write other byte => if other = stream ∧ closedBefore command stream position = false then [byte] else []
    | _ => []

/-- The command writes no more than a pipe holds to its standard error before it closes its
standard output or exits. -/
def Modest (capacity : Nat) (command : Command) : Prop :=
  ∀ position, (∀ i < position, command i ≠ .close .out ∧ ∀ code, command i ≠ .exit code) →
    (writtenBefore command .err position).length ≤ capacity

namespace Frame

def payloadOf (stream : Stream) : Frame → Bytes
  | .output other payload => if other = stream then payload else []
  | .exited _ => []

end Frame

def payload (stream : Stream) (frames : List Frame) : Bytes := frames.flatMap (Frame.payloadOf stream)

namespace Pump

def holding (stream : Stream) : Pump → Bytes
  | .sending other chunk => if other = stream then chunk else []
  | _ => []

def on (stream : Stream) : Pump → Bool
  | .reading other => decide (other = stream)
  | .sending other _ => decide (other = stream)
  | _ => false

end Pump

structure Draining (command : Command) (s : System) : Prop where
  whole : ∀ stream, payload stream s.frames ++ s.pump.holding stream ++ (s.pipe stream).bytes =
    writtenBefore command stream s.position
  running : s.exited = none → ∀ stream, (s.pipe stream).writable = !closedBefore command stream s.position
  ended : s.exited.isSome = true → ∀ stream, (s.pipe stream).writable = false
  quiet : s.pump.on .out = true → payload .err s.frames = []
  first : s.pump.on .out = false → s.pipe .out = { bytes := [], writable := false }
  second : s.pump.on .out = false → s.pump.on .err = false →
    s.pipe .err = { bytes := [], writable := false }
  passed : ∀ i < s.position, ∀ code, command i ≠ .exit code

theorem start_draining (command : Command) : Draining command {} where
  whole := fun stream => by cases stream <;> rfl
  running := fun _ _ => rfl
  ended := nofun
  quiet := fun _ => rfl
  first := nofun
  second := nofun
  passed := nofun

theorem closedBefore_succ (command : Command) (stream : Stream) (position : Nat) :
    closedBefore command stream (position + 1) =
      (closedBefore command stream position || decide (command position = .close stream)) := by
  unfold closedBefore
  rw [List.range_succ, List.any_append, List.any_cons, List.any_nil, Bool.or_false]

variable {stream : Stream} {position : Nat}

theorem payload_snoc (stream : Stream) (frames : List Frame) (frame : Frame) :
    payload stream (frames ++ [frame]) = payload stream frames ++ frame.payloadOf stream := by
  unfold payload
  rw [List.flatMap_append, List.flatMap_singleton]

section Steps

variable {capacity : Nat} {command : Command} {s t : System}

theorem setPipe_pipe (s : System) (stream other : Stream) (pipe : Pipe) :
    (s.setPipe stream pipe).pipe other = if other = stream then pipe else s.pipe other :=
  Function.update_apply ..

theorem stepCommand_cases (stepped : s.stepCommand capacity command = some t) : s.exited = none ∧
    ((∃ stream byte, command s.position = .write stream byte ∧ (s.pipe stream).writable = false ∧
        t = { s with position := s.position + 1 }) ∨
     (∃ stream byte, command s.position = .write stream byte ∧ (s.pipe stream).writable = true ∧
        (s.pipe stream).bytes.length < capacity ∧
        t = ({ s with position := s.position + 1 } : System).setPipe stream
          { s.pipe stream with bytes := (s.pipe stream).bytes ++ [byte] }) ∨
     (∃ stream, command s.position = .close stream ∧
        t = ({ s with position := s.position + 1 } : System).setPipe stream
          { s.pipe stream with writable := false }) ∨
     (∃ code, command s.position = .exit code ∧
        t = { s with exited := some code, pipe := fun stream => { s.pipe stream with writable := false } })) := by
  unfold stepCommand at stepped
  split at stepped
  · cases stepped
  rename_i alive
  refine ⟨by simpa using alive, ?_⟩
  dsimp only at stepped
  cases operation : command s.position with
  | write stream byte =>
    rw [operation] at stepped
    dsimp only at stepped
    split at stepped
    · rename_i closed
      exact .inl ⟨stream, byte, rfl, by simpa using closed, (Option.some.inj stepped).symm⟩
    · rename_i open_
      split at stepped
      · rename_i room
        exact .inr (.inl ⟨stream, byte, rfl, by simpa using open_, room, (Option.some.inj stepped).symm⟩)
      · cases stepped
  | close stream =>
    rw [operation] at stepped
    exact .inr (.inr (.inl ⟨stream, rfl, (Option.some.inj stepped).symm⟩))
  | exit code =>
    rw [operation] at stepped
    exact .inr (.inr (.inr ⟨code, rfl, (Option.some.inj stepped).symm⟩))

theorem stepAgent_cases (stepped : s.stepAgent = some t) :
    (∃ stream, s.pump = .reading stream ∧ (s.pipe stream).bytes ≠ [] ∧
      t = { s.setPipe stream { s.pipe stream with bytes := (s.pipe stream).bytes.drop chunkSize } with
        pump := .sending stream ((s.pipe stream).bytes.take chunkSize) }) ∨
    (∃ stream, s.pump = .reading stream ∧ s.pipe stream = { bytes := [], writable := false } ∧
      t = { s with pump := afterEnd stream }) ∨
    (∃ stream chunk, s.pump = .sending stream chunk ∧
      t = { s with pump := .reading stream, frames := s.frames ++ [.output stream chunk] }) ∨
    (∃ code, s.pump = .waiting ∧ s.exited = some code ∧
      t = { s with pump := .done, frames := s.frames ++ [.exited code] }) := by
  unfold stepAgent at stepped
  cases pump : s.pump with
  | reading stream =>
    rw [pump] at stepped
    dsimp only at stepped
    split at stepped
    · rename_i some_
      exact .inl ⟨stream, rfl, some_, (Option.some.inj stepped).symm⟩
    · rename_i empty
      split at stepped
      · cases stepped
      · rename_i closed
        refine .inr (.inl ⟨stream, rfl, ?_, (Option.some.inj stepped).symm⟩)
        rw [show s.pipe stream = ⟨(s.pipe stream).bytes, (s.pipe stream).writable⟩ from rfl,
          not_not.mp empty, Bool.eq_false_iff.mpr closed]
  | sending stream chunk =>
    rw [pump] at stepped
    exact .inr (.inr (.inl ⟨stream, chunk, rfl, (Option.some.inj stepped).symm⟩))
  | waiting =>
    rw [pump] at stepped
    obtain ⟨code, gone, same⟩ := Option.map_eq_some_iff.mp stepped
    exact .inr (.inr (.inr ⟨code, rfl, gone, same.symm⟩))
  | done =>
    rw [pump] at stepped
    cases stepped

theorem writtenBefore_write {other : Stream} {byte : UInt8}
    (operation : command position = .write other byte) :
    writtenBefore command stream (position + 1) = writtenBefore command stream position ++
      if other = stream ∧ closedBefore command stream position = false then [byte] else [] := by
  rw [writtenBefore, operation]

theorem writtenBefore_close {other : Stream} (operation : command position = .close other) :
    writtenBefore command stream (position + 1) = writtenBefore command stream position := by
  rw [writtenBefore, operation]
  exact List.append_nil _

theorem running_write {other : Stream} {byte : UInt8} (operation : command position = .write other byte) :
    closedBefore command stream (position + 1) = closedBefore command stream position := by
  rw [closedBefore_succ, operation]
  exact Bool.or_false _

theorem passed_succ (passed : ∀ i < position, ∀ code, command i ≠ .exit code)
    (stays : ∀ code, command position ≠ .exit code) :
    ∀ i < position + 1, ∀ code, command i ≠ .exit code := by
  intro i below
  rcases Nat.lt_succ_iff_lt_or_eq.mp below with before | rfl
  · exact passed i before
  · exact stays

theorem draining_command (draining : Draining command s)
    (stepped : s.stepCommand capacity command = some t) : Draining command t := by
  obtain ⟨alive, cases_⟩ := stepCommand_cases stepped
  have running := draining.running alive
  rcases cases_ with ⟨stream, byte, operation, closed, rfl⟩ | ⟨stream, byte, operation, opened, room, rfl⟩ |
    ⟨stream, operation, rfl⟩ | ⟨code, operation, rfl⟩
  · have before : closedBefore command stream s.position = true := by simpa [running stream] using closed
    exact { draining with
      whole := fun other => by
        rw [writtenBefore_write operation, if_neg (by rintro ⟨rfl, still⟩; rw [before] at still; cases still),
          List.append_nil]
        exact draining.whole other
      running := fun _ other => by
        rw [running_write operation]
        exact running other
      passed := passed_succ draining.passed fun code => by rw [operation]; exact nofun }
  · have before : closedBefore command stream s.position = false := by simpa [running stream] using opened
    refine { draining with whole := ?_, running := ?_, ended := ?_, first := ?_, second := ?_, passed := ?_ }
    · intro other
      change payload other s.frames ++ s.pump.holding other ++ _ =
        writtenBefore command other (s.position + 1)
      rw [setPipe_pipe, writtenBefore_write operation]
      by_cases same : other = stream
      · subst same
        rw [if_pos rfl, if_pos ⟨rfl, before⟩, ← draining.whole other]
        exact (List.append_assoc ..).symm
      · rw [if_neg same, if_neg (fun both => same both.1.symm), List.append_nil]
        exact draining.whole other
    · intro _ other
      rw [setPipe_pipe]
      change _ = !closedBefore command other (s.position + 1)
      rw [running_write operation, ← running other]
      by_cases same : other = stream
      · rw [if_pos same, same]
      · rw [if_neg same]
    · intro gone
      exact absurd alive (Option.ne_none_iff_isSome.mpr gone)
    · intro later
      rw [setPipe_pipe, if_neg]
      · exact draining.first later
      · rintro rfl
        rw [draining.first later] at opened
        cases opened
    · intro later last
      rw [setPipe_pipe, if_neg]
      · exact draining.second later last
      · rintro rfl
        rw [draining.second later last] at opened
        cases opened
    · exact passed_succ draining.passed fun code => by rw [operation]; exact nofun
  · refine { draining with whole := ?_, running := ?_, ended := ?_, first := ?_, second := ?_, passed := ?_ }
    · intro other
      change payload other s.frames ++ s.pump.holding other ++ _ =
        writtenBefore command other (s.position + 1)
      rw [setPipe_pipe, writtenBefore_close operation, ← draining.whole other]
      by_cases same : other = stream
      · rw [if_pos same, same]
      · rw [if_neg same]
    · intro _ other
      rw [setPipe_pipe]
      change _ = !closedBefore command other (s.position + 1)
      rw [closedBefore_succ, operation]
      by_cases same : other = stream
      · rw [if_pos same, same, decide_eq_true rfl, Bool.or_true]
        rfl
      · have apart : ¬ Op.close stream = Op.close other := fun equal => same (Op.close.inj equal).symm
        rw [if_neg same, decide_eq_false apart, Bool.or_false]
        exact running other
    · intro gone
      exact absurd alive (Option.ne_none_iff_isSome.mpr gone)
    · intro later
      rw [setPipe_pipe]
      by_cases same : Stream.out = stream
      · rw [if_pos same, ← same, draining.first later]
      · rw [if_neg same]
        exact draining.first later
    · intro later last
      rw [setPipe_pipe]
      by_cases same : Stream.err = stream
      · rw [if_pos same, ← same, draining.second later last]
      · rw [if_neg same]
        exact draining.second later last
    · exact passed_succ draining.passed fun code => by rw [operation]; exact nofun
  · exact { draining with
      running := nofun
      ended := fun _ _ => rfl
      first := fun later => congrArg (fun pipe : Pipe => { pipe with writable := false }) (draining.first later)
      second := fun later last =>
        congrArg (fun pipe : Pipe => { pipe with writable := false }) (draining.second later last) }

theorem draining_agent (draining : Draining command s) (stepped : s.stepAgent = some t) :
    Draining command t := by
  rcases stepAgent_cases stepped with ⟨stream, pump, some_, rfl⟩ | ⟨stream, pump, closed, rfl⟩ |
    ⟨stream, chunk, pump, rfl⟩ | ⟨code, pump, gone, rfl⟩
  · have here : s.pump.on stream = true := by
      rw [pump]
      exact decide_eq_true rfl
    have same : ∀ other chunk, (Pump.sending stream chunk).on other = s.pump.on other := by
      intro other chunk
      rw [pump]
      rfl
    have writable : ∀ other, ((s.setPipe stream
        { s.pipe stream with bytes := (s.pipe stream).bytes.drop chunkSize }).pipe other).writable =
        (s.pipe other).writable := by
      intro other
      rw [setPipe_pipe]
      by_cases equal : other = stream
      · rw [if_pos equal, equal]
      · rw [if_neg equal]
    refine { draining with
      whole := ?_
      running := fun alive other => (writable other).trans (draining.running alive other)
      ended := fun gone other => (writable other).trans (draining.ended gone other)
      quiet := fun first => draining.quiet ((same _ _).symm.trans first)
      first := ?_
      second := ?_ }
    · intro other
      refine Eq.trans ?_ (draining.whole other)
      rw [pump]
      change _ ++ (if stream = other then _ else []) ++ ((s.setPipe stream _).pipe other).bytes = _
      rw [setPipe_pipe]
      by_cases equal : stream = other
      · subst equal
        rw [if_pos rfl, if_pos rfl, List.append_assoc, List.take_append_drop]
        exact congrArg (· ++ _) (List.append_nil _).symm
      · rw [if_neg equal, if_neg (fun other => equal other.symm)]
        rfl
    · intro later
      have away := (same _ _).symm.trans later
      change (s.setPipe stream _).pipe .out = _
      rw [setPipe_pipe, if_neg]
      · exact draining.first away
      · rintro rfl
        rw [here] at away
        cases away
    · intro later last
      have away := (same _ _).symm.trans last
      change (s.setPipe stream _).pipe .err = _
      rw [setPipe_pipe, if_neg]
      · exact draining.second ((same _ _).symm.trans later) away
      · rintro rfl
        rw [here] at away
        cases away
  · refine { draining with whole := ?_, quiet := ?_, first := ?_, second := ?_ }
    · intro other
      refine Eq.trans ?_ (draining.whole other)
      rw [pump]
      cases stream <;> rfl
    · cases stream
      · exact nofun
      · exact nofun
    · cases stream with
      | out => exact fun _ => closed
      | err => exact fun _ => draining.first (by rw [pump]; rfl)
    · cases stream with
      | out => exact fun _ last => nomatch last
      | err => exact fun _ _ => closed
  · have same : ∀ other, (Pump.reading stream).on other = s.pump.on other := by
      intro other
      rw [pump]
      rfl
    refine { draining with
      whole := ?_
      quiet := ?_
      first := fun later => draining.first ((same _).symm.trans later)
      second := fun later last => draining.second ((same _).symm.trans later) ((same _).symm.trans last) }
    · intro other
      refine Eq.trans ?_ (draining.whole other)
      rw [pump, payload_snoc]
      exact congrArg (· ++ _) (List.append_nil _)
    · intro first
      have early := (same _).symm.trans first
      change payload .err (s.frames ++ [.output stream chunk]) = []
      rw [payload_snoc, draining.quiet early, List.nil_append]
      rw [pump] at early
      cases stream with
      | out => rfl
      | err => exact nomatch early
  · refine { draining with whole := ?_, quiet := nofun, first := ?_, second := ?_ }
    · intro other
      refine Eq.trans ?_ (draining.whole other)
      rw [pump, payload_snoc]
      exact congrArg (· ++ _ ++ _) (List.append_nil _)
    · exact fun _ => draining.first (by rw [pump]; rfl)
    · exact fun _ _ => draining.second (by rw [pump]; rfl) (by rw [pump]; rfl)

theorem draining_step {party : Party} (draining : Draining command s)
    (stepped : s.step capacity command party = some t) : Draining command t := by
  cases party with
  | command => exact draining_command draining stepped
  | agent => exact draining_agent draining stepped

theorem draining_run (parties : List Party) (run : Run.exec (step capacity command) {} parties = some s) :
    Draining command s :=
  Run.exec_invariant (fun _ _ _ draining stepped => draining_step draining stepped) parties
    (start_draining command) run

theorem stepAgent_stuck (stuck : s.stepAgent = none) :
    (∃ stream, s.pump = .reading stream ∧ (s.pipe stream).bytes = [] ∧ (s.pipe stream).writable = true) ∨
    (s.pump.on .out = false ∧ s.pump.on .err = false) := by
  unfold stepAgent at stuck
  cases pump : s.pump with
  | reading stream =>
    rw [pump] at stuck
    dsimp only at stuck
    split at stuck
    · cases stuck
    · rename_i empty
      split at stuck
      · rename_i opened
        exact .inl ⟨stream, rfl, not_not.mp empty, opened⟩
      · cases stuck
  | sending stream chunk =>
    rw [pump] at stuck
    cases stuck
  | waiting => exact .inr ⟨rfl, rfl⟩
  | done => exact .inr ⟨rfl, rfl⟩

theorem open_before (opened : closedBefore command stream position = false) :
    ∀ i < position, command i ≠ .close stream := by
  intro i below closes
  unfold closedBefore at opened
  rw [List.any_eq_false] at opened
  exact opened i (List.mem_range.mpr below) (decide_eq_true closes)

theorem modest_progress (some_ : 0 < capacity) (modest : Modest capacity command)
    (draining : Draining command s) (blocked : Blocked capacity command s) : s.stepAgent.isSome = true := by
  obtain ⟨alive, stream, byte, operation, opened, full⟩ := blocked
  by_contra stuck
  rcases stepAgent_stuck (Option.not_isSome_iff_eq_none.mp stuck) with
    ⟨other, pump, empty, waits⟩ | ⟨later, last⟩
  · cases other with
    | out =>
      cases stream with
      | out =>
        rw [empty] at full
        exact Nat.not_lt_zero _ (Nat.lt_of_lt_of_le some_ full)
      | err =>
        have outOpen : closedBefore command .out s.position = false := by
          simpa [draining.running alive .out] using waits
        have errOpen : closedBefore command .err s.position = false := by
          simpa [draining.running alive .err] using opened
        have whole := draining.whole .err
        rw [draining.quiet (by rw [pump]; rfl), pump] at whole
        change (s.pipe .err).bytes = _ at whole
        have written := modest (s.position + 1) fun i below => by
          rcases Nat.lt_succ_iff_lt_or_eq.mp below with before | rfl
          · exact ⟨open_before outOpen i before, draining.passed i before⟩
          · rw [operation]
            exact ⟨nofun, fun _ => nofun⟩
        rw [writtenBefore_write operation, if_pos ⟨rfl, errOpen⟩, ← whole, List.length_append,
          List.length_singleton] at written
        omega
    | err =>
      cases stream with
      | out =>
        rw [draining.first (by rw [pump]; rfl)] at opened
        cases opened
      | err =>
        rw [empty] at full
        exact Nat.not_lt_zero _ (Nat.lt_of_lt_of_le some_ full)
  · cases stream with
    | out =>
      rw [draining.first later] at opened
      cases opened
    | err =>
      rw [draining.second later last] at opened
      cases opened

theorem writtenBefore_mono (command : Command) (stream : Stream) (position : Nat) :
    (writtenBefore command stream position).length ≤
      (writtenBefore command stream (position + 1)).length := by
  rw [writtenBefore, List.length_append]
  exact Nat.le_add_right _ _

theorem stepCommand_moves (alive : s.exited = none) (free : ¬ Blocked capacity command s)
    (lives : ∀ code, command s.position ≠ .exit code) :
    ∃ t, s.stepCommand capacity command = some t ∧ t.position = s.position + 1 ∧ t.exited = none ∧
      t.pump = s.pump ∧ (t.pipe .out).bytes.length ≤ (s.pipe .out).bytes.length + 1 := by
  unfold stepCommand
  rw [alive, Option.isSome_none, if_neg nofun]
  dsimp only
  cases operation : command s.position with
  | exit code => exact absurd operation (lives code)
  | close stream =>
    refine ⟨_, rfl, rfl, rfl, rfl, ?_⟩
    rw [setPipe_pipe]
    split
    · rename_i same
      rw [same]
      exact Nat.le_succ _
    · exact Nat.le_succ _
  | write stream byte =>
    dsimp only
    cases opened : (s.pipe stream).writable with
    | false => exact ⟨_, rfl, rfl, rfl, rfl, Nat.le_succ _⟩
    | true =>
      have room : (s.pipe stream).bytes.length < capacity := by
        by_contra full
        exact free ⟨alive, stream, byte, operation, opened, Nat.le_of_not_lt full⟩
      rw [Bool.not_true, if_neg nofun, if_pos room]
      refine ⟨_, rfl, rfl, rfl, rfl, ?_⟩
      rw [setPipe_pipe]
      split
      · rename_i same
        exact Nat.le_of_eq (by rw [same, List.length_append, List.length_singleton])
      · exact Nat.le_succ _

theorem drain_out (reads : s.pump = .reading .out) (few : (s.pipe .out).bytes.length ≤ chunkSize) :
    ∃ parties t, Run.exec (step capacity command) s parties = some t ∧ t.position = s.position ∧
      t.exited = s.exited ∧ t.pump = .reading .out ∧ (t.pipe .out).bytes = [] := by
  by_cases empty : (s.pipe .out).bytes = []
  · exact ⟨[], s, rfl, rfl, rfl, reads, empty⟩
  · have read : s.stepAgent = some { s.setPipe .out
        { s.pipe .out with bytes := (s.pipe .out).bytes.drop chunkSize } with
        pump := .sending .out ((s.pipe .out).bytes.take chunkSize) } := by
      unfold stepAgent
      rw [reads]
      exact if_pos empty
    refine ⟨[.agent, .agent], { s.setPipe .out { s.pipe .out with bytes := (s.pipe .out).bytes.drop chunkSize } with
      pump := .reading .out
      frames := s.frames ++ [.output .out ((s.pipe .out).bytes.take chunkSize)] }, ?_, rfl, rfl, rfl, ?_⟩
    · simp only [Run.exec, step, read, Option.bind_some]
      rfl
    · exact List.drop_of_length_le few

theorem drained_prefix (some_ : 0 < capacity) (position : Nat)
    (open_ : ∀ i < position, command i ≠ .close .out ∧ ∀ code, command i ≠ .exit code)
    (room : (writtenBefore command .err position).length ≤ capacity) :
    ∃ parties s, Run.exec (step capacity command) {} parties = some s ∧ s.position = position ∧
      s.exited = none ∧ s.pump = .reading .out ∧ (s.pipe .out).bytes = [] := by
  induction position with
  | zero => exact ⟨[], {}, rfl, rfl, rfl, rfl, rfl⟩
  | succ position ih =>
    obtain ⟨parties, s, run, rfl, alive, pump, empty⟩ :=
      ih (fun i below => open_ i (Nat.lt_succ_of_lt below))
      (Nat.le_trans (writtenBefore_mono ..) room)
    have draining := draining_run parties run
    have free : ¬ Blocked capacity command s := by
      rintro ⟨-, stream, byte, operation, opened, full⟩
      cases stream with
      | out =>
        rw [empty] at full
        exact Nat.not_lt_zero _ (Nat.lt_of_lt_of_le some_ full)
      | err =>
        have errOpen : closedBefore command .err s.position = false := by
          simpa [draining.running alive .err] using opened
        have whole := draining.whole .err
        rw [draining.quiet (by rw [pump]; rfl), pump] at whole
        change (s.pipe .err).bytes = _ at whole
        rw [writtenBefore_write operation, if_pos ⟨rfl, errOpen⟩, ← whole, List.length_append,
          List.length_singleton] at room
        omega
    obtain ⟨t, moved, position, still, same, few⟩ :=
      stepCommand_moves alive free (open_ s.position (Nat.lt_succ_self _)).2
    rw [empty] at few
    obtain ⟨more, u, drained, position', still', reads, empty'⟩ := @drain_out capacity command _
      (same.trans pump) (Nat.le_trans few (by decide))
    refine ⟨parties ++ .command :: more, u, ?_, position'.trans position, still'.trans still, reads, empty'⟩
    rw [Run.exec_append, run]
    simp only [Option.bind_some, Run.exec, step, moved]
    exact drained

theorem immodest_stuck (some_ : 0 < capacity) (immodest : ¬ Modest capacity command) :
    ∃ parties s, Run.exec (step capacity command) {} parties = some s ∧ Blocked capacity command s ∧
      s.stepAgent = none := by
  unfold Modest at immodest
  simp only [not_forall] at immodest
  obtain ⟨position, open_, over_⟩ := immodest
  replace over_ := Nat.lt_of_not_le over_
  induction position with
  | zero => exact absurd over_ (Nat.not_lt_zero _)
  | succ position ih =>
    have earlier : ∀ i < position, command i ≠ .close .out ∧ ∀ code, command i ≠ .exit code :=
      fun i below => open_ i (Nat.lt_succ_of_lt below)
    by_cases before : capacity < (writtenBefore command .err position).length
    · exact ih earlier before
    obtain ⟨parties, s, run, rfl, alive, pump, empty⟩ :=
      drained_prefix some_ position earlier (Nat.le_of_not_lt before)
    have draining := draining_run parties run
    have running := draining.running alive
    have whole := draining.whole .err
    rw [draining.quiet (by rw [pump]; rfl), pump] at whole
    change (s.pipe .err).bytes = _ at whole
    have outOpen : (s.pipe .out).writable = true := by
      rw [running .out, Bool.not_eq_true']
      unfold closedBefore
      rw [List.any_eq_false]
      exact fun i listed closes => (earlier i (List.mem_range.mp listed)).1 (of_decide_eq_true closes)
    refine ⟨parties, s, run, ?_, ?_⟩
    · cases operation : command s.position with
      | close stream =>
        rw [writtenBefore_close operation] at over_
        exact absurd over_ before
      | exit code => exact absurd operation ((open_ s.position (Nat.lt_succ_self _)).2 code)
      | write stream byte =>
        rw [writtenBefore_write operation] at over_
        split at over_
        · rename_i both
          obtain ⟨rfl, still⟩ := both
          rw [List.length_append, List.length_singleton] at over_
          exact ⟨alive, .err, byte, operation, by rw [running, still]; rfl, by rw [whole]; omega⟩
        · rw [List.append_nil] at over_
          exact absurd over_ before
    · unfold stepAgent
      rw [pump]
      dsimp only
      rw [empty, outOpen]
      rfl

end Steps

/-- Some step of the agent is enabled whenever the command is blocked, in every order of the
steps, exactly when the command is modest. -/
theorem exec_progress_iff {capacity : Nat} (some_ : 0 < capacity) (command : Command) :
    (∀ parties s, Run.exec (step capacity command) {} parties = some s → Blocked capacity command s →
      s.stepAgent.isSome = true) ↔ Modest capacity command := by
  constructor
  · intro progress
    by_contra immodest
    obtain ⟨parties, s, run, blocked, stuck⟩ := immodest_stuck some_ immodest
    have enabled := progress parties s run blocked
    rw [stuck] at enabled
    cases enabled
  · exact fun modest parties s run blocked =>
      modest_progress some_ modest (draining_run parties run) blocked

theorem writtenBefore_length (command : Command) (stream : Stream) (position : Nat) :
    (writtenBefore command stream position).length ≤ position := by
  induction position with
  | zero => exact Nat.le_refl 0
  | succ position ih =>
    rw [writtenBefore, List.length_append]
    refine Nat.add_le_add ih ?_
    split
    · split
      · exact Nat.le_refl 1
      · exact Nat.zero_le 1
    · exact Nat.zero_le 1

def pipeCapacity : Nat := 64 * 1024

def brief : Command
  | 0 => .write .err 0x65
  | 1 => .write .out 0x6f
  | _ => .exit 0

theorem exec_progress_brief :
    Modest pipeCapacity brief ∧ ∀ parties s, Run.exec (step pipeCapacity brief) {} parties = some s →
      Blocked pipeCapacity brief s → s.stepAgent.isSome = true := by
  have modest : Modest pipeCapacity brief := by
    intro position open_
    have early : position ≤ 2 := by
      by_contra late
      exact (open_ 2 (Nat.lt_of_not_le late)).2 0 rfl
    have few := writtenBefore_length brief .err position
    exact Nat.le_trans few (Nat.le_trans early (by decide))
  exact ⟨modest, (exec_progress_iff (by decide) brief).mpr modest⟩

def complaining : Command := fun _ => .write .err 0x78

/-- It fills the pipe that the agent does not read, and both wait. -/
theorem complaining_deadlocks : ¬ ∀ parties s, Run.exec (step pipeCapacity complaining) {} parties =
    some s → Blocked pipeCapacity complaining s → s.stepAgent.isSome = true := by
  have open_ : ∀ position, closedBefore complaining .err position = false := by
    intro position
    unfold closedBefore
    rw [List.any_eq_false]
    exact fun i _ closes => nomatch of_decide_eq_true closes
  have written : ∀ position, (writtenBefore complaining .err position).length = position := by
    intro position
    induction position with
    | zero => rfl
    | succ position ih =>
      rw [writtenBefore_write rfl, if_pos ⟨rfl, open_ position⟩, List.length_append, ih]
      rfl
  intro progress
  obtain ⟨parties, s, run, blocked, stuck⟩ :=
    @immodest_stuck pipeCapacity complaining (by decide) fun modest => by
    have few := modest (pipeCapacity + 1) fun _ _ => ⟨nofun, fun _ => nofun⟩
    rw [written] at few
    exact absurd few (by decide)
  have enabled := progress parties s run blocked
  rw [stuck] at enabled
  cases enabled

end Machinen.Exec
