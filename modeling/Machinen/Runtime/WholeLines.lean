import Machinen.Runtime.Chunking

/-! The supervisor as it would read its input byte by byte, keeping a line that has begun and a Ctrl-]
that may be the first of two; and the chunks for which it is what the supervisor does. -/
namespace Machinen.Runtime.Multiplex

open Utf8

def newline : UInt8 := 0x0A

structure Reader where
  st : State
  line : Bytes := []

/-- One typed byte. A Ctrl-] waits for the next byte. -/
def Supervisor.read (sup : Supervisor) (r : Reader) (b : UInt8) : Reader :=
  if r.st.stopped || r.st.thrown.isSome then r
  else if r.st.attachedId.isSome then
    if b = ctrlRightBracket then
      if r.st.lastGs then { r with st := detach r.st } else { r with st := { r.st with lastGs := true } }
    else
      let held := if r.st.lastGs then [ctrlRightBracket] else []
      { r with st := sup.sendAttached { r.st with lastGs := false } (held ++ [b]) }
  else if b = newline then ⟨sup.handleDetachedLine r.st (dropCr (decode r.line)), []⟩
  else { r with line := r.line ++ [b] }

def Supervisor.reads (sup : Supervisor) (r : Reader) (typed : Bytes) : Reader := typed.foldl sup.read r

def Effect.single : Effect → List Effect
  | .sent id data => data.map fun b => .sent id [b]
  | effect => [effect]

def bytewise (log : List Effect) : List Effect := log.flatMap Effect.single

theorem bytewise_append (log more : List Effect) :
    bytewise (log ++ more) = bytewise log ++ bytewise more :=
  List.flatMap_append

theorem sentTo_single (id : Text) (effect : Effect) : sentTo id effect.single = effect.sentTo id := by
  cases effect with
  | sent sandbox data =>
    have each : (Effect.sent sandbox data).single = (Supervisor.singly data).map (.sent sandbox) := by
      unfold Supervisor.singly
      rw [List.map_map]
      rfl
    rw [each]
    by_cases own : sandbox = id
    · subst own
      rw [Supervisor.sentTo_sent, Supervisor.singly_flatten]
      exact (if_pos rfl).symm
    · rw [Supervisor.sentTo_other own]
      exact (if_neg own).symm
  | _ => rfl

theorem filterMap_single {α : Type} {f : Effect → Option α} (none_ : ∀ id data, f (.sent id data) = none)
    (effect : Effect) : effect.single.filterMap f = [effect].filterMap f := by
  cases effect with
  | sent id data =>
    have gone : (Effect.sent id data).single.filterMap f = [] := by
      refine List.filterMap_eq_nil_iff.mpr fun effect member => ?_
      obtain ⟨b, _, rfl⟩ := List.mem_map.mp member
      exact none_ id [b]
    rw [gone, List.filterMap_cons_none (none_ id data)]
    rfl
  | _ => rfl

theorem sentTo_bytewise (id : Text) (log : List Effect) : sentTo id (bytewise log) = sentTo id log := by
  induction log with
  | nil => rfl
  | cons effect log ih =>
    have cons_ : bytewise (effect :: log) = effect.single ++ bytewise log := List.flatMap_cons
    rw [cons_, Supervisor.sentTo_append, sentTo_single, ih]
    rfl

theorem filterMap_bytewise {α : Type} {f : Effect → Option α}
    (none_ : ∀ id data, f (.sent id data) = none)
    (log : List Effect) : (bytewise log).filterMap f = log.filterMap f := by
  induction log with
  | nil => rfl
  | cons effect log ih =>
    have cons_ : bytewise (effect :: log) = effect.single ++ bytewise log := List.flatMap_cons
    rw [cons_, List.filterMap_append, filterMap_single none_, ih, ← List.filterMap_append]
    rfl

theorem alike_of_bytewise {log other : List Effect} (same : bytewise log = bytewise other) :
    Alike log other := by
  have kept {α : Type} {f : Effect → Option α} (none_ : ∀ id data, f (.sent id data) = none) :
      log.filterMap f = other.filterMap f := by
    rw [← filterMap_bytewise none_, same, filterMap_bytewise none_]
  refine ⟨fun id => ?_, kept fun _ _ => rfl, kept fun _ _ => rfl⟩
  rw [← sentTo_bytewise, same, sentTo_bytewise]

structure Like (st other : State) : Prop where
  attachedId : other.attachedId = st.attachedId
  lastGs : other.lastGs = st.lastGs
  stopped : other.stopped = st.stopped
  thrown : other.thrown = st.thrown
  log : bytewise other.log = bytewise st.log

namespace Like

variable {st other : State} {sup : Supervisor}

theorem record (like : Like st other) (effect : Effect) :
    Like (st.record effect) (other.record effect) := by
  refine ⟨like.attachedId, like.lastGs, like.stopped, like.thrown, ?_⟩
  unfold State.record
  rw [bytewise_append, bytewise_append, like.log]

theorem print (like : Like st other) (message : Text) : Like (st.print message) (other.print message) :=
  like.record _

theorem detach (like : Like st other) : Like (detach st) (Multiplex.detach other) := by
  unfold Multiplex.detach
  rw [like.attachedId]
  cases st.attachedId with
  | none => exact like
  | some prev =>
    have freed : Like { st with attachedId := none, lastGs := false }
        { other with attachedId := none, lastGs := false } :=
      ⟨rfl, rfl, like.stopped, like.thrown, like.log⟩
    exact (freed.record _).print _

theorem attach (like : Like st other) (id : Text) : Like (sup.attach st id) (sup.attach other id) := by
  unfold Supervisor.attach
  split
  · have taken : Like { Multiplex.detach st with attachedId := some id }
        { Multiplex.detach other with attachedId := some id } :=
      ⟨rfl, like.detach.lastGs, like.detach.stopped, like.detach.thrown, like.detach.log⟩
    exact (taken.record _).print _
  · exact ⟨like.detach.attachedId, like.detach.lastGs, like.detach.stopped, rfl, like.detach.log⟩

theorem stop (like : Like st other) : Like (stop st) (Multiplex.stop other) := by
  unfold Multiplex.stop
  rw [like.stopped]
  split
  · exact like
  · have ended : Like { st with stopped := true } { other with stopped := true } :=
      ⟨like.attachedId, like.lastGs, rfl, like.thrown, like.log⟩
    exact ended.detach

theorem doLs (like : Like st other) : Like (sup.doLs st) (sup.doLs other) := by
  unfold Supervisor.doLs
  split
  · exact like.print _
  · generalize sup.sandboxes = rows
    induction rows generalizing st other with
    | nil => exact like
    | cons id rows ih => exact ih (like.print _)

theorem execute (like : Like st other) (command : Command) :
    Like (sup.execute st command) (sup.execute other command) := by
  cases command with
  | ls => exact like.doLs
  | attach id =>
    cases id with
    | none => exact like.print _
    | some id => exact like.attach id
  | help => exact like.print _
  | quit => exact like.stop

theorem handleDetachedLine (like : Like st other) (line : Text) :
    Like (sup.handleDetachedLine st line) (sup.handleDetachedLine other line) := by
  unfold Supervisor.handleDetachedLine Supervisor.handleCommand
  split
  · exact like
  · split
    · exact like.print _
    · exact like.print _
    · exact (like.record _).execute _

end Like

def Command.leaves : Command → Bool
  | .attach (some _) => true
  | .quit => true
  | _ => false

namespace Supervisor

/-- What is handled when a line ends. -/
def lineText (line : Bytes) : Text := dropCr (decode line)

/-- Lines with their ends, of which only the last may leave the prompt. -/
def WholeLines (sup : Supervisor) (chunk : Bytes) : Prop :=
  ∃ lines : List Bytes, chunk = lines.flatMap (· ++ [newline]) ∧ (∀ line ∈ lines, newline ∉ line) ∧
    ∀ line ∈ lines.dropLast, ∀ command, readLine sup.commandPrefix (lineText line) = .command command →
      command.leaves = false

/-- At the prompt whole lines; in a sandbox no two Ctrl-] of which an earlier chunk has the first, and whole
lines behind them. -/
def WellCut (sup : Supervisor) (st : State) (chunk : Bytes) : Prop :=
  if st.stopped || st.thrown.isSome then True
  else if st.attachedId.isSome then
    match (findDetachSequence st.lastGs chunk).1 with
    | none => True
    | some 0 => False
    | some (before + 1) => sup.WholeLines (chunk.drop (before + 2))
  else sup.WholeLines chunk

def WellCutFrom (sup : Supervisor) : State → List Bytes → Prop
  | _, [] => True
  | st, chunk :: chunks => sup.WellCut st chunk ∧ sup.WellCutFrom (sup.onData st chunk) chunks

variable {sup : Supervisor}

theorem reads_append (r : Reader) (xs ys : Bytes) :
    sup.reads r (xs ++ ys) = sup.reads (sup.reads r xs) ys :=
  List.foldl_append

theorem newline_decode {line : Bytes} (one : newline ∉ line) : '\n' ∉ decode line := by
  intro broken
  obtain ⟨b, member, same⟩ := ascii_of_decode (by decide) (by decide) broken
  have newline_ : b = newline := UInt8.toNat_inj.mp same
  exact one (newline_ ▸ member)

theorem splitLines_chunk {lines : List Bytes} (one : ∀ line ∈ lines, newline ∉ line) :
    splitLines (decode (lines.flatMap (· ++ [newline]))) = lines.map lineText ++ [[]] := by
  induction lines with
  | nil => rfl
  | cons line lines ih =>
    have here := newline_decode (one line List.mem_cons_self)
    rw [List.flatMap_cons, List.append_assoc, List.singleton_append,
      decode_ascii (by decide : newline.toNat < 0x80)]
    refine (splitLines_line here _).trans ?_
    rw [ih fun other member => one other (List.mem_cons_of_mem line member)]
    rfl

theorem reads_line {st : State} (going : st.stopped = false) (fine : st.thrown = none)
    (prompt : st.attachedId = none) {line : Bytes} (one : newline ∉ line) (begun : Bytes) :
    sup.reads ⟨st, begun⟩ line = ⟨st, begun ++ line⟩ := by
  induction line generalizing begun with
  | nil =>
    rw [List.append_nil]
    rfl
  | cons b line ih =>
    obtain ⟨here, later⟩ := List.ne_and_not_mem_of_not_mem_cons one
    have step : sup.read ⟨st, begun⟩ b = ⟨st, begun ++ [b]⟩ := by
      unfold read
      dsimp only
      rw [going, fine, prompt]
      exact if_neg (Ne.symm here)
    rw [reads, List.foldl_cons, step]
    refine (ih later (begun ++ [b])).trans ?_
    rw [List.append_assoc]
    rfl

theorem reads_newline {st : State} (going : st.stopped = false) (fine : st.thrown = none)
    (prompt : st.attachedId = none) {line : Bytes} (one : newline ∉ line) :
    sup.reads ⟨st, []⟩ (line ++ [newline]) = ⟨sup.handleDetachedLine st (lineText line), []⟩ := by
  rw [reads_append, reads_line going fine prompt one, List.nil_append, reads, List.foldl_cons,
    List.foldl_nil, read]
  dsimp only
  rw [going, fine, prompt]
  rfl

theorem handleDetachedLine_stays {st : State} {line : Text}
    (stays : ∀ command, readLine sup.commandPrefix line = .command command → command.leaves = false) :
    ∃ effects, sup.handleDetachedLine st line = { st with log := st.log ++ effects } := by
  unfold handleDetachedLine handleCommand
  split
  · exact ⟨[], by rw [List.append_nil]⟩
  · split
    · exact ⟨[_], rfl⟩
    · exact ⟨[_], rfl⟩
    · rename_i command read
      have kept := stays command read
      cases command with
      | ls =>
        obtain ⟨effects, all⟩ := sup.doLs_prints (st.record (.executed .ls))
        refine ⟨[.executed .ls] ++ effects, ?_⟩
        rw [execute, all, ← List.append_assoc]
        rfl
      | attach id =>
        cases id with
        | none => exact ⟨[_] ++ [_], by rw [← List.append_assoc]; rfl⟩
        | some id => cases kept
      | help => exact ⟨[_] ++ [_], by rw [← List.append_assoc]; rfl⟩
      | quit => cases kept

/-- The lines of a chunk at the prompt, and what the reader makes of them. -/
theorem like_lines {lines : List Bytes} (one : ∀ line ∈ lines, newline ∉ line)
    (stays : ∀ line ∈ lines.dropLast, ∀ command,
    readLine sup.commandPrefix (lineText line) = .command command →
      command.leaves = false) {st other : State} (like : Like st other) (going : st.stopped = false)
    (fine : st.thrown = none) (prompt : st.attachedId = none) :
    ∃ other', sup.reads ⟨other, []⟩ (lines.flatMap (· ++ [newline])) = ⟨other', []⟩ ∧
      Like (sup.handleDetachedLines st (lines.map lineText ++ [[]])) other' := by
  have ended (st : State) : sup.handleDetachedLines st [[]] = st := ingestDetached_nil st
  induction lines generalizing st other with
  | nil =>
    refine ⟨other, rfl, ?_⟩
    rw [List.map_nil, List.nil_append, ended]
    exact like
  | cons line lines ih =>
    have here : Like (sup.handleDetachedLine st (lineText line))
      (sup.handleDetachedLine other (lineText line)) :=
      like.handleDetachedLine (lineText line)
    have read : sup.reads ⟨other, []⟩ (line ++ [newline]) =
      ⟨sup.handleDetachedLine other (lineText line), []⟩ :=
      reads_newline (like.stopped.trans going) (like.thrown.trans fine) (like.attachedId.trans prompt)
        (one line List.mem_cons_self)
    rw [List.flatMap_cons, reads_append, read, List.map_cons, List.cons_append, handleDetachedLines]
    cases lines with
    | nil =>
      refine ⟨_, rfl, ?_⟩
      rw [List.map_nil, List.nil_append, ended]
      split <;> exact here
    | cons next lines =>
      have answered : ∃ effects, sup.handleDetachedLine st (lineText line) =
        { st with log := st.log ++ effects } :=
        handleDetachedLine_stays (stays line List.mem_cons_self)
      obtain ⟨effects, kept⟩ := answered
      have still : (sup.handleDetachedLine st (lineText line)).stopped = false ∧
          (sup.handleDetachedLine st (lineText line)).thrown = none ∧
          (sup.handleDetachedLine st (lineText line)).attachedId = none := by
        rw [kept]
        exact ⟨going, fine, prompt⟩
      rw [still.2.1, Option.isSome_none, if_neg Bool.false_ne_true]
      exact ih (fun other member => one other (List.mem_cons_of_mem line member))
        (fun other member => stays other (List.mem_cons_of_mem line member)) here still.1 still.2.1
          still.2.2

/-- What the attached sandbox gets, byte by byte. -/
def gets (sup : Supervisor) (attachedId : Option Text) (data : Bytes) : List Effect :=
  match attachedId with
  | none => []
  | some id => if id ∈ sup.sandboxes then data.map fun b => .sent id [b] else []

theorem gets_append (attachedId : Option Text) (xs ys : Bytes) :
    sup.gets attachedId (xs ++ ys) = sup.gets attachedId xs ++ sup.gets attachedId ys := by
  unfold gets
  split
  · rfl
  · split
    · exact List.map_append
    · rfl

theorem gets_nil (attachedId : Option Text) : sup.gets attachedId [] = [] := by
  unfold gets
  split
  · rfl
  · split <;> rfl

theorem sendAttached_fields (sup : Supervisor) (st : State) (data : Bytes) :
    ∃ log, sup.sendAttached st data = { st with log } ∧
      bytewise log = bytewise st.log ++ sup.gets st.attachedId data := by
  obtain ⟨attachedId, lastGs, stopped, thrown, log⟩ := st
  unfold sendAttached gets
  cases attachedId with
  | none => exact ⟨log, rfl, (List.append_nil _).symm⟩
  | some id =>
    dsimp only
    split
    · refine ⟨_, rfl, ?_⟩
      rw [bytewise_append]
      exact congrArg (bytewise log ++ ·) (List.append_nil _)
    · exact ⟨log, rfl, (List.append_nil _).symm⟩

theorem sendAttachedIfNonEmpty_fields (sup : Supervisor) (st : State) (data : Bytes) :
    ∃ log, sup.sendAttachedIfNonEmpty st data = { st with log } ∧
      bytewise log = bytewise st.log ++ sup.gets st.attachedId data := by
  unfold sendAttachedIfNonEmpty
  split
  · rename_i empty
    rw [empty, gets_nil, List.append_nil]
    exact ⟨_, rfl, rfl⟩
  · exact sendAttached_fields sup st data

/-- What the scanner finds: the second of two, of which the first may be in an earlier chunk. -/
theorem findDetachSequence_found {lastGs : Bool} {chunk : Bytes} {n : Nat}
    (found : (findDetachSequence lastGs chunk).1 = some n) :
    (n = 0 ∧ lastGs = true ∧ chunk.head? = some ctrlRightBracket) ∨
      ∃ pre rest, n = pre.length + 1 ∧ chunk = pre ++ ctrlRightBracket :: ctrlRightBracket :: rest ∧
        findDetachSequence lastGs pre = (none, false) := by
  induction chunk generalizing lastGs n with
  | nil => cases found
  | cons b chunk ih =>
    by_cases other : b = ctrlRightBracket
    · subst other
      cases lastGs with
      | true =>
        cases found
        exact .inl ⟨rfl, rfl, rfl⟩
      | false =>
        rw [findDetachSequence_first] at found
        obtain ⟨m, later, rfl⟩ := Option.map_eq_some_iff.mp found
        rcases ih later with ⟨rfl, _, next⟩ | ⟨pre, rest, rfl, rfl, scanned⟩
        · obtain ⟨rest, rfl⟩ := List.head?_eq_some_iff.mp next
          exact .inr ⟨[], rest, rfl, rfl, rfl⟩
        · refine .inr ⟨ctrlRightBracket :: pre, rest, rfl, rfl, ?_⟩
          rw [findDetachSequence_first, scanned]
          rfl
    · rw [findDetachSequence_other other] at found
      obtain ⟨m, later, rfl⟩ := Option.map_eq_some_iff.mp found
      rcases ih later with ⟨_, none_, _⟩ | ⟨pre, rest, rfl, rfl, scanned⟩
      · cases none_
      · refine .inr ⟨b :: pre, rest, rfl, rfl, ?_⟩
        rw [findDetachSequence_other other, scanned]
        rfl

theorem reads_attached (sup : Supervisor) {chunk : Bytes} {r : Reader} (going : r.st.stopped = false)
    (fine : r.st.thrown = none) (attached : r.st.attachedId.isSome = true)
    (none_ : (findDetachSequence r.st.lastGs chunk).1 = none) : ∃ log, sup.reads r chunk =
        { r with st := { r.st with lastGs := (findDetachSequence r.st.lastGs chunk).2, log } } ∧
      bytewise log ++ sup.gets r.st.attachedId
          (if (findDetachSequence r.st.lastGs chunk).2 then [ctrlRightBracket] else []) =
        bytewise r.st.log ++ sup.gets r.st.attachedId
          ((if r.st.lastGs then [ctrlRightBracket] else []) ++ chunk) := by
  induction chunk generalizing r with
  | nil =>
    rw [List.append_nil]
    exact ⟨r.st.log, rfl, rfl⟩
  | cons b chunk ih =>
    by_cases other : b = ctrlRightBracket
    · subst other
      cases held : r.st.lastGs with
      | true =>
        rw [held] at none_
        cases none_
      | false =>
        have step : sup.read r ctrlRightBracket = { r with st := { r.st with lastGs := true } } := by
          unfold read
          rw [going, fine, attached, held]
          rfl
        rw [held, findDetachSequence_first, Option.map_eq_none_iff] at none_
        obtain ⟨log, read, same⟩ := @ih { r with st := { r.st with lastGs := true } } going fine attached
          none_
        refine ⟨log, ?_, ?_⟩
        · rw [reads, List.foldl_cons, step, findDetachSequence_first]
          exact read
        · rw [findDetachSequence_first]
          exact same
    · rw [findDetachSequence_other other, Option.map_eq_none_iff] at none_
      have step : sup.read r b = ⟨sup.sendAttached { r.st with lastGs := false }
          ((if r.st.lastGs then [ctrlRightBracket] else []) ++ [b]), r.line⟩ := by
        unfold read
        rw [going, fine, attached, if_neg other]
        rfl
      obtain ⟨sent, made, grown⟩ := sendAttached_fields sup { r.st with lastGs := false }
        ((if r.st.lastGs then [ctrlRightBracket] else []) ++ [b])
      obtain ⟨log, read, same⟩ := @ih { r with st := { r.st with lastGs := false, log := sent } } going
        fine attached none_
      refine ⟨log, ?_, ?_⟩
      · rw [reads, List.foldl_cons, step, made, findDetachSequence_other other]
        exact read
      · rw [findDetachSequence_other other]
        refine same.trans ?_
        dsimp only
        rw [grown, List.append_assoc, ← gets_append, List.append_assoc]
        rfl

end Supervisor

/-- The reader stands where the supervisor does, but for a Ctrl-] that waits. -/
structure Follows (sup : Supervisor) (st : State) (r : Reader) : Prop where
  line : r.line = []
  attachedId : r.st.attachedId = st.attachedId
  lastGs : r.st.lastGs = st.lastGs
  stopped : r.st.stopped = st.stopped
  thrown : r.st.thrown = st.thrown
  log : bytewise r.st.log ++ sup.gets r.st.attachedId (if r.st.lastGs then [ctrlRightBracket] else []) =
    bytewise st.log
  settled : st.attachedId = none → st.lastGs = false

namespace Supervisor

variable {sup : Supervisor}

theorem handleDetachedLine_lastGs (sup : Supervisor) {st : State} (settled : st.lastGs = false)
    (line : Text) : (sup.handleDetachedLine st line).lastGs = false := by
  have detached (st : State) (settled : st.lastGs = false) : (detach st).lastGs = false := by
    unfold detach
    split
    · exact settled
    · rfl
  unfold handleDetachedLine handleCommand
  split
  · exact settled
  · split
    · exact settled
    · exact settled
    · rename_i command _
      cases command with
      | ls =>
        obtain ⟨effects, all⟩ := sup.doLs_prints (st.record (.executed .ls))
        rw [execute, all]
        exact settled
      | attach id =>
        cases id with
        | none => exact settled
        | some id =>
          unfold execute attach
          dsimp only
          split
          · exact detached (st.record _) settled
          · exact detached (st.record _) settled
      | help => exact settled
      | quit =>
        unfold execute stop
        dsimp only
        split
        · exact settled
        · exact detached { st.record _ with stopped := true } settled

theorem ingestDetached_lastGs (sup : Supervisor) {st : State} (settled : st.lastGs = false)
    (chunk : Bytes) : (sup.ingestDetached st chunk).lastGs = false := by
  unfold ingestDetached
  generalize splitLines (decode chunk) = lines
  induction lines generalizing st with
  | nil => exact settled
  | cons line lines ih =>
    unfold handleDetachedLines
    dsimp only
    split
    · exact handleDetachedLine_lastGs sup settled line
    · exact ih (handleDetachedLine_lastGs sup settled line)

theorem follows_wholeLines {st other : State} (like : Like st other) (going : st.stopped = false)
    (fine : st.thrown = none) (prompt : st.attachedId = none) (settled : st.lastGs = false)
    {chunk : Bytes} (whole : sup.WholeLines chunk) : Follows sup (sup.ingestDetached st chunk)
      (sup.reads ⟨other, []⟩ chunk) := by
  obtain ⟨lines, rfl, one, stays⟩ := whole
  obtain ⟨other', read, like'⟩ := like_lines one stays like going fine prompt
  have settled' := ingestDetached_lastGs sup settled (lines.flatMap (· ++ [newline]))
  have taken : sup.ingestDetached st (lines.flatMap (· ++ [newline])) =
      sup.handleDetachedLines st (lines.map lineText ++ [[]]) := by
    rw [ingestDetached, splitLines_chunk one]
  rw [read, taken]
  rw [taken] at settled'
  refine ⟨rfl, like'.attachedId, like'.lastGs, like'.stopped, like'.thrown, ?_, fun _ => settled'⟩
  dsimp only
  rw [like'.lastGs, settled', like'.log, if_neg Bool.false_ne_true, gets_nil, List.append_nil]

theorem reads_ended {r : Reader} (ended : (r.st.stopped || r.st.thrown.isSome) = true) (typed : Bytes) :
    sup.reads r typed = r := by
  induction typed with
  | nil => rfl
  | cons b typed ih =>
    have step : sup.read r b = r := if_pos ended
    rw [reads, List.foldl_cons, step]
    exact ih

theorem reads_double {r : Reader} (going : r.st.stopped = false) (fine : r.st.thrown = none)
    (attached : r.st.attachedId.isSome = true) (held : r.st.lastGs = false) :
    sup.reads r [ctrlRightBracket, ctrlRightBracket] =
      { r with st := detach { r.st with lastGs := true } } := by
  have step : sup.read r ctrlRightBracket = { r with st := { r.st with lastGs := true } } := by
    unfold read
    rw [going, fine, attached, held]
    rfl
  rw [reads, List.foldl_cons, step, List.foldl_cons, List.foldl_nil]
  unfold read
  dsimp only
  rw [going, fine, attached]
  rfl

end Supervisor

namespace Follows

variable {sup : Supervisor} {st : State} {r : Reader}

theorem reader_eq (follows : Follows sup st r) : r = ⟨r.st, []⟩ := by
  rw [← follows.line]

theorem like (follows : Follows sup st r) (prompt : st.attachedId = none) : Like st r.st := by
  refine ⟨follows.attachedId, follows.lastGs, follows.stopped, follows.thrown, ?_⟩
  have log := follows.log
  rw [follows.lastGs, follows.settled prompt, if_neg Bool.false_ne_true, Supervisor.gets_nil,
    List.append_nil] at log
  exact log

theorem goes_on (follows : Follows sup st r) {id : Text} (attached : st.attachedId = some id)
    (going : st.stopped = false) (fine : st.thrown = none) {chunk : Bytes}
    (none_ : (findDetachSequence st.lastGs chunk).1 = none) :
    Follows sup (sup.onData st chunk) (sup.reads r chunk) := by
  have taken : sup.onData st chunk =
      sup.sendAttached { st with lastGs := (findDetachSequence st.lastGs chunk).2 } chunk := by
    rw [Supervisor.onData_going going fine, Supervisor.ingest_attached attached]
    unfold Supervisor.ingestAttached
    dsimp only
    rw [none_]
  obtain ⟨sent, made, grown⟩ := Supervisor.sendAttached_fields sup
    { st with lastGs := (findDetachSequence st.lastGs chunk).2 } chunk
  have some_ : r.st.attachedId.isSome = true := by rw [follows.attachedId, attached]; rfl
  have scanned : (findDetachSequence r.st.lastGs chunk).1 = none := by rw [follows.lastGs, none_]
  obtain ⟨log, read, same⟩ := Supervisor.reads_attached sup (follows.stopped.trans going)
    (follows.thrown.trans fine) some_ scanned
  rw [taken, made, read]
  refine ⟨follows.line, follows.attachedId,
    congrArg (fun gs => (findDetachSequence gs chunk).2) follows.lastGs,
    follows.stopped, follows.thrown, ?_, fun gone => ?_⟩
  · dsimp only at grown ⊢
    rw [same, Supervisor.gets_append, ← List.append_assoc, follows.log, grown, follows.attachedId]
  · rw [attached] at gone
    cases gone

theorem ends (follows : Follows sup st r) {id : Text} (attached : st.attachedId = some id)
    (going : st.stopped = false) (fine : st.thrown = none) {pre rest : Bytes}
    (scanned : findDetachSequence st.lastGs pre = (none, false)) (whole : sup.WholeLines rest) :
    Follows sup (sup.onData st (pre ++ ctrlRightBracket :: ctrlRightBracket :: rest))
      (sup.reads r (pre ++ ctrlRightBracket :: ctrlRightBracket :: rest)) := by
  have some_ : r.st.attachedId.isSome = true := by rw [follows.attachedId, attached]; rfl
  have scanned' : findDetachSequence r.st.lastGs pre = (none, false) := by rw [follows.lastGs, scanned]
  obtain ⟨log, read, same⟩ := Supervisor.reads_attached sup (follows.stopped.trans going)
    (follows.thrown.trans fine) some_ (congrArg Prod.fst scanned')
  rw [scanned'] at read same
  obtain ⟨sent, made, grown⟩ := Supervisor.sendAttachedIfNonEmpty_fields sup { st with lastGs := true }
    pre
  have logs : bytewise log = bytewise sent := by
    rw [if_neg Bool.false_ne_true, Supervisor.gets_nil, List.append_nil, Supervisor.gets_append,
      ← List.append_assoc, follows.log, follows.attachedId] at same
    exact same.trans grown.symm
  have like : Like { st with lastGs := true, log := sent } { r.st with lastGs := true, log } :=
    ⟨follows.attachedId, rfl, follows.stopped, follows.thrown, logs⟩
  have last : sup.reads { r with st := { r.st with lastGs := false, log } }
    [ctrlRightBracket, ctrlRightBracket] =
      ⟨detach { r.st with lastGs := true, log }, r.line⟩ :=
    Supervisor.reads_double (follows.stopped.trans going) (follows.thrown.trans fine) some_ rfl
  have two : sup.reads r (pre ++ [ctrlRightBracket, ctrlRightBracket]) =
      ⟨detach { r.st with lastGs := true, log }, []⟩ := by
    rw [Supervisor.reads_append, read]
    exact last.trans (congrArg (Reader.mk _) follows.line)
  have parts : pre ++ ctrlRightBracket :: ctrlRightBracket :: rest =
      (pre ++ [ctrlRightBracket, ctrlRightBracket]) ++ rest := by
    rw [List.append_assoc]
    rfl
  have ended : ∃ message, detach { st with lastGs := true, log := sent } =
      { st with attachedId := none, lastGs := false, log := sent ++ [.detached id] ++ [.printed message] } :=
    Supervisor.detach_fields attached
  obtain ⟨message, ended⟩ := ended
  rw [Supervisor.onData_double attached going fine scanned rest, made, parts, Supervisor.reads_append,
    two]
  have stands : (detach { st with lastGs := true, log := sent }).stopped = false ∧
      (detach { st with lastGs := true, log := sent }).thrown = none ∧
      (detach { st with lastGs := true, log := sent }).attachedId = none ∧
      (detach { st with lastGs := true, log := sent }).lastGs = false := by
    rw [ended]
    exact ⟨going, fine, rfl, rfl⟩
  exact Supervisor.follows_wholeLines like.detach stands.1 stands.2.1 stands.2.2.1 stands.2.2.2 whole

theorem onData (follows : Follows sup st r) {chunk : Bytes} (cut : sup.WellCut st chunk) :
    Follows sup (sup.onData st chunk) (sup.reads r chunk) := by
  unfold Supervisor.WellCut at cut
  split at cut
  · rename_i ended
    have ignored : sup.onData st chunk = st := if_pos ended
    rw [ignored, Supervisor.reads_ended (by rw [follows.stopped, follows.thrown]; exact ended)]
    exact follows
  · rename_i running
    have going : st.stopped = false := by
      cases stopped : st.stopped with
      | false => rfl
      | true =>
        rw [stopped] at running
        exact absurd rfl running
    have fine : st.thrown = none := by
      rw [going, Bool.false_or, Option.not_isSome_iff_eq_none] at running
      exact running
    cases attached : st.attachedId with
    | none =>
      rw [attached, Option.isSome_none, if_neg Bool.false_ne_true] at cut
      rw [Supervisor.onData_going going fine, Supervisor.ingest_prompt attached, follows.reader_eq]
      exact Supervisor.follows_wholeLines (follows.like attached) going fine attached
        (follows.settled attached) cut
    | some id =>
      rw [attached, Option.isSome_some, if_pos rfl] at cut
      split at cut
      · rename_i none_
        exact follows.goes_on attached going fine none_
      · cases cut
      · rename_i before found
        rcases Supervisor.findDetachSequence_found
          found with ⟨zero, _, _⟩ | ⟨pre, rest, place, rfl, scanned⟩
        · cases zero
        · have length : before = pre.length := Nat.succ.inj place
          subst length
          rw [List.drop_length_add_append] at cut
          exact follows.ends attached going fine scanned cut

theorem run (follows : Follows sup st r) {chunks : List Bytes} (cut : sup.WellCutFrom st chunks) :
    Follows sup (sup.run st chunks) (sup.reads r chunks.flatten) := by
  induction chunks generalizing st r with
  | nil => exact follows
  | cons chunk chunks ih =>
    rw [List.flatten_cons, Supervisor.reads_append]
    exact ih (follows.onData cut.1) cut.2

end Follows

namespace Supervisor

variable {sup : Supervisor}

theorem follows_start (seat : sup.Seat) : Follows sup (sup.start seat) ⟨sup.start seat, []⟩ := by
  cases seat with
  | none => exact ⟨rfl, rfl, rfl, rfl, rfl, rfl, fun _ => rfl⟩
  | some seat =>
    obtain ⟨message, begun⟩ := start_attached seat
    rw [begun]
    exact ⟨rfl, rfl, rfl, rfl, rfl, by rw [if_neg Bool.false_ne_true, gets_nil, List.append_nil], nofun⟩

/-- Two ways of splitting that both end their chunks well come to the same. -/
theorem wellCut_alike (seat : sup.Seat) {typed : Bytes} {chunks other : List Bytes}
    (joined : chunks.flatten = typed) (joined' : other.flatten = typed)
    (cut : sup.WellCutFrom (sup.start seat) chunks) (cut' : sup.WellCutFrom (sup.start seat) other) :
    Alike (sup.run (sup.start seat) chunks).log (sup.run (sup.start seat) other).log := by
  have one := (follows_start seat).run cut
  have two := (follows_start seat).run cut'
  rw [joined] at one
  rw [joined'] at two
  exact alike_of_bytewise (one.log.symm.trans two.log)

def lsLine : Bytes := [0x2F, 0x6C, 0x73]
def attachLine : Bytes := [0x2F, 0x61, 0x74, 0x74, 0x61, 0x63, 0x68, 0x20, 0x63, 0x61, 0x74]
def detachThenLs : Bytes := [ctrlRightBracket, ctrlRightBracket] ++ lsLine ++ [newline]

/-- `/ls`, `/attach cat`, a text for the sandbox, and two Ctrl-] with `/ls` behind them, apart or together. -/
theorem wellCut_alike_oneSandbox :
    Alike
      (oneSandbox.run (oneSandbox.start none)
        [lsLine ++ [newline], attachLine ++ [newline], [0x68, 0x69], detachThenLs]).log
      (oneSandbox.run (oneSandbox.start none)
        [lsLine ++ [newline] ++ attachLine ++ [newline], [0x68, 0x69] ++ detachThenLs]).log := by
  have whole (lines : List Bytes) (one : ∀ line ∈ lines, newline ∉ line)
      (stays : ∀ line ∈ lines.dropLast, line = lsLine) : oneSandbox.WholeLines (lines.flatMap (· ++ [newline])) := by
    refine ⟨lines, rfl, one, fun line listed command read => ?_⟩
    rw [stays line listed] at read
    cases read
    rfl
  have listing : oneSandbox.WholeLines (lsLine ++ [newline]) := whole [lsLine] (by decide) (by simp)
  have prompt {st : State} {chunk : Bytes} (outside : st.attachedId = none) (lines : oneSandbox.WholeLines chunk) :
      oneSandbox.WellCut st chunk := by
    unfold WellCut
    split
    · trivial
    · rw [outside]
      exact lines
  have inside {st : State} {chunk : Bytes} (before : Nat) (entered : st.attachedId.isSome = true)
      (found : (findDetachSequence st.lastGs chunk).1 = some (before + 1))
      (lines : oneSandbox.WholeLines (chunk.drop (before + 2))) : oneSandbox.WellCut st chunk := by
    unfold WellCut
    split
    · trivial
    · rw [found]
      exact lines
  have text {st : State} {chunk : Bytes} (entered : st.attachedId.isSome = true)
      (none_ : (findDetachSequence st.lastGs chunk).1 = none) : oneSandbox.WellCut st chunk := by
    unfold WellCut
    split
    · trivial
    · rw [none_]
      trivial
  refine wellCut_alike none rfl rfl ⟨prompt rfl listing, prompt ?_ ?_, text ?_ ?_, inside 0 ?_ ?_ listing, trivial⟩
    ⟨prompt rfl ?_, inside 2 ?_ ?_ listing, trivial⟩
  · decide +kernel
  · exact whole [attachLine] (by decide) (by simp)
  · decide +kernel
  · decide +kernel
  · decide +kernel
  · decide +kernel
  · exact whole [lsLine, attachLine] (by decide) (by simp)
  · decide +kernel
  · decide +kernel

end Supervisor

end Machinen.Runtime.Multiplex
