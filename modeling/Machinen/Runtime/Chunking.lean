import Mathlib.Data.List.TakeWhile
import Machinen.Runtime.Multiplex

/-! What the supervisor makes of typed bytes that reach it in one chunking or another. -/
namespace Machinen.Runtime.Multiplex

open Utf8

def Effect.sentTo (id : Text) : Effect → Bytes
  | .sent sandbox data => if sandbox = id then data else []
  | _ => []

def Effect.command? : Effect → Option Command
  | .executed command => some command
  | _ => none

inductive Transition where
  | attached (id : Text)
  | detached (id : Text)
  deriving DecidableEq

def Effect.transition? : Effect → Option Transition
  | .attached id => some (.attached id)
  | .detached id => some (.detached id)
  | _ => none

def Effect.isDetached : Effect → Bool
  | .detached _ => true
  | _ => false

def sentTo (id : Text) (log : List Effect) : Bytes := log.flatMap (Effect.sentTo id)

/-- The same bytes for each sandbox, the same attaching and detaching, the same commands. -/
structure Alike (log other : List Effect) : Prop where
  sent : ∀ id, sentTo id log = sentTo id other
  transitions : log.filterMap Effect.transition? = other.filterMap Effect.transition?
  commands : log.filterMap Effect.command? = other.filterMap Effect.command?

/-- A way of splitting what is typed. -/
structure Splits (typed : Bytes) (chunks : List Bytes) : Prop where
  joined : chunks.flatten = typed
  nonempty : ∀ chunk ∈ chunks, chunk ≠ []

/-- The bytes before the first two Ctrl-] in a row. -/
def beforeDouble : Bytes → Bytes
  | [] => []
  | [b] => [b]
  | b :: c :: rest => if b = ctrlRightBracket ∧ c = ctrlRightBracket then [] else b :: beforeDouble (c :: rest)

namespace Supervisor

/-- Where typing begins: at the prompt, or right after a registered sandbox was attached. -/
abbrev Seat (sup : Supervisor) := Option { id : Text // id ∈ sup.sandboxes ∧ id ≠ [] }

def start (sup : Supervisor) : sup.Seat → State
  | none => {}
  | some id => sup.attach {} id

/-- However it is split, what is typed does the same, and an attached sandbox gets what comes before
the first two Ctrl-] in a row. -/
structure IgnoresChunks (sup : Supervisor) (seat : sup.Seat) (typed : Bytes) : Prop where
  alike : ∀ chunks other, Splits typed chunks → Splits typed other →
    Alike (sup.run (sup.start seat) chunks).log (sup.run (sup.start seat) other).log
  before : ∀ id, seat = some id → ∀ chunks, Splits typed chunks →
    sentTo id ((sup.run (sup.start seat) chunks).log.takeWhile fun effect => !effect.isDetached) =
      beforeDouble typed

/-- Bytes that are one line of text with a command in it. -/
def IsCommand (sup : Supervisor) (bytes : Bytes) : Prop :=
  '\n' ∉ decode bytes ∧ ∃ command, readLine sup.commandPrefix (decode bytes) = .command command

/-- At the prompt no piece of what is typed is a command; in a sandbox there are no two Ctrl-] in a row. -/
def Inert (sup : Supervisor) : sup.Seat → Bytes → Prop
  | none, typed => ∀ piece, piece <:+: typed → ¬ sup.IsCommand piece
  | some _, typed => ¬ [ctrlRightBracket, ctrlRightBracket] <:+: typed

end Supervisor

/-- The line break that `split` takes with a line. -/
def dropCr (line : Text) : Text := if line.getLast? = some '\r' then line.dropLast else line

theorem splitLines_newline (text : Text) : splitLines ('\n' :: text) = [] :: splitLines text := rfl

theorem splitLines_cons {c : Char} {text : Text} (plain : c ≠ '\n')
    (inside : c = '\r' → text.head? ≠ some '\n') :
    splitLines (c :: text) = consHead c (splitLines text) := by
  rw [splitLines.eq_def]
  split
  · rename_i empty
    cases empty
  · rename_i rest same
    cases same
    exact absurd rfl (inside rfl)
  · rename_i same
    cases same
    exact if_neg plain

theorem splitLines_line {line : Text} (one : '\n' ∉ line) (text : Text) :
    splitLines (line ++ '\n' :: text) = dropCr line :: splitLines text := by
  induction line with
  | nil => exact splitLines_newline text
  | cons c line ih =>
    obtain ⟨here, later⟩ := List.ne_and_not_mem_of_not_mem_cons one
    cases line with
    | nil =>
      by_cases cr : c = '\r'
      · subst cr
        rfl
      · have kept : dropCr [c] = [c] := if_neg fun last => cr (Option.some.inj last)
        rw [kept, List.cons_append, List.nil_append,
          splitLines_cons (Ne.symm here) (fun same => absurd same cr), splitLines_newline, consHead]
    | cons d line =>
      have inside : ((d :: line) ++ '\n' :: text).head? ≠ some '\n' := fun same =>
        (List.ne_and_not_mem_of_not_mem_cons later).1 (Option.some.inj same).symm
      have kept : dropCr (c :: d :: line) = c :: dropCr (d :: line) := by
        unfold dropCr
        rw [List.getLast?_cons_cons]
        split <;> rfl
      rw [kept, List.cons_append, splitLines_cons (Ne.symm here) (fun _ => inside), ih later, consHead]

theorem splitLines_single {line : Text} (one : '\n' ∉ line) : splitLines line = [line] := by
  induction line with
  | nil => rfl
  | cons c line ih =>
    obtain ⟨here, later⟩ := List.ne_and_not_mem_of_not_mem_cons one
    have inside : line.head? ≠ some '\n' := fun same => later (List.mem_of_mem_head? same)
    rw [splitLines_cons (Ne.symm here) (fun _ => inside), ih later, consHead]

theorem dropCr_append (line : Text) : ∃ ending, line = dropCr line ++ ending := by
  unfold dropCr
  split
  · exact ⟨_, (List.dropLast_append_getLast? _ ‹_›).symm⟩
  · exact ⟨[], (List.append_nil line).symm⟩

/-- A line is a piece of the text with no line break in it. -/
theorem splitLines_piece {text line : Text} (member : line ∈ splitLines text) :
    line <:+: text ∧ '\n' ∉ line := by
  induction length : text.length using Nat.strongRecOn generalizing text with
  | ind n ih =>
    by_cases broken : '\n' ∈ text
    · obtain ⟨head, rest, rfl, one⟩ := List.eq_append_cons_of_mem broken
      rw [splitLines_line one] at member
      rcases List.mem_cons.mp member with rfl | later
      · obtain ⟨ending, whole⟩ := dropCr_append head
        refine ⟨⟨[], ending ++ '\n' :: rest, ?_⟩, fun inside => one ?_⟩
        · rw [List.nil_append, ← List.append_assoc, ← whole]
        · rw [whole]
          exact List.mem_append_left ending inside
      · have shorter : rest.length < n := by
          rw [← length, List.length_append, List.length_cons]
          omega
        obtain ⟨piece, one⟩ := ih rest.length shorter later rfl
        exact ⟨piece.trans ⟨head ++ ['\n'], [], by simp⟩, one⟩
    · rw [splitLines_single broken, List.mem_singleton] at member
      subst member
      exact ⟨List.infix_rfl, broken⟩

theorem splitSpacesFrom_short {gap : Bool} {text word : Text} {words : List Text}
    (split_ : splitSpacesFrom gap text = word :: words) : word.length ≤ text.length := by
  induction text generalizing gap word words with
  | nil =>
    cases split_
    exact Nat.le_refl _
  | cons c text ih =>
    rw [splitSpacesFrom] at split_
    split at split_
    · split at split_
      · exact Nat.le_succ_of_le (ih split_)
      · cases split_
        exact Nat.zero_le _
    · cases later : splitSpacesFrom false text with
      | nil =>
        rw [later] at split_
        cases split_
        exact Nat.succ_le_succ (Nat.zero_le _)
      | cons part parts =>
        rw [later] at split_
        cases split_
        exact Nat.succ_le_succ (ih later)

theorem trim_length (text : Text) : (trim text).length ≤ text.length := by
  unfold trim trimEnd trimStart
  rw [List.length_reverse]
  have shorter (t : Text) : (t.dropWhile isSpace).length ≤ t.length :=
    (List.dropWhile_sublist isSpace).length_le
  calc ((text.dropWhile isSpace).reverse.dropWhile isSpace).length
      ≤ (text.dropWhile isSpace).reverse.length := shorter _
    _ = (text.dropWhile isSpace).length := List.length_reverse
    _ ≤ text.length := shorter text

theorem Supervisor.readLine_long {commandPrefix raw : Text} {command : Command}
    (read : Supervisor.readLine commandPrefix raw = .command command) : 2 ≤ raw.length := by
  unfold Supervisor.readLine at read
  dsimp only at read
  split at read
  · split at read
    · cases read
    · rename_i cmd rest words
      have short := splitSpacesFrom_short words
      rw [List.length_drop] at short
      have trimmed := trim_length raw
      have named (name : Text) (long : 2 ≤ name.length) (same : cmd = name) : 2 ≤ raw.length := by
        rw [same] at short
        omega
      split at read
      · exact named "ls".toList (by decide) ‹_›
      · split at read
        · exact named "attach".toList (by decide) ‹_›
        · split at read
          · exact named "help".toList (by decide) ‹_›
          · split at read
            · rename_i quit
              rcases quit with quit | exit
              · exact named "quit".toList (by decide) quit
              · exact named "exit".toList (by decide) exit
            · cases read
  · cases read

def State.printAll (st : State) (messages : List Text) : State :=
  { st with log := st.log ++ messages.map .printed }

theorem State.printAll_nil (st : State) : st.printAll [] = st := by
  unfold State.printAll
  rw [List.map_nil, List.append_nil]

theorem State.printAll_append (st : State) (messages more : List Text) :
    (st.printAll messages).printAll more = st.printAll (messages ++ more) := by
  unfold State.printAll
  rw [List.map_append, List.append_assoc]

namespace Supervisor

variable {sup : Supervisor}

theorem record_grows (st : State) (effect : Effect) : st.log <+: (st.record effect).log :=
  List.prefix_append st.log [effect]

theorem detach_grows (st : State) : st.log <+: (detach st).log := by
  unfold detach
  split
  · exact List.prefix_rfl
  · exact List.IsPrefix.trans (record_grows _ _) (record_grows _ _)

theorem attach_grows (st : State) (id : Text) : st.log <+: (sup.attach st id).log := by
  unfold attach
  split
  · exact (detach_grows st).trans
      ((record_grows { detach st with attachedId := some id } _).trans (record_grows _ _))
  · exact detach_grows st

theorem doLs_prints (sup : Supervisor) (st : State) :
    ∃ effects, sup.doLs st = { st with log := st.log ++ effects } := by
  unfold doLs
  split
  · exact ⟨[_], rfl⟩
  · generalize sup.sandboxes = rows
    induction rows generalizing st with
    | nil => exact ⟨[], by rw [List.append_nil]; rfl⟩
    | cons id rows ih =>
      obtain ⟨effects, rest⟩ := ih (st.print ("  ".toList ++ id ++ "\n".toList))
      refine ⟨[.printed ("  ".toList ++ id ++ "\n".toList)] ++ effects, ?_⟩
      rw [List.foldl_cons, rest, ← List.append_assoc]
      rfl

theorem doLs_grows (st : State) : st.log <+: (sup.doLs st).log := by
  obtain ⟨effects, printed⟩ := sup.doLs_prints st
  rw [printed]
  exact List.prefix_append _ _

theorem execute_grows (st : State) (command : Command) : st.log <+: (sup.execute st command).log := by
  cases command with
  | ls => exact doLs_grows st
  | attach id =>
    cases id with
    | none => exact record_grows st _
    | some id => exact attach_grows st id
  | help => exact record_grows st _
  | quit =>
    unfold execute stop
    dsimp only
    split
    · exact List.prefix_rfl
    · exact detach_grows { st with stopped := true }

theorem handleDetachedLine_grows (st : State) (line : Text) :
    st.log <+: (sup.handleDetachedLine st line).log := by
  unfold handleDetachedLine handleCommand
  split
  · exact List.prefix_rfl
  · split
    · exact record_grows st _
    · exact record_grows st _
    · exact (record_grows st _).trans (execute_grows _ _)

theorem ingestDetached_grows (st : State) (chunk : Bytes) :
    st.log <+: (sup.ingestDetached st chunk).log := by
  unfold ingestDetached
  generalize splitLines (decode chunk) = lines
  induction lines generalizing st with
  | nil => exact List.prefix_rfl
  | cons line lines ih =>
    unfold handleDetachedLines
    dsimp only
    split
    · exact handleDetachedLine_grows st line
    · exact (handleDetachedLine_grows st line).trans (ih _)

theorem sendAttached_grows (st : State) (chunk : Bytes) :
    st.log <+: (sup.sendAttached st chunk).log := by
  unfold sendAttached
  split
  · exact List.prefix_rfl
  · split
    · exact record_grows st _
    · exact List.prefix_rfl

theorem onData_grows (st : State) (chunk : Bytes) : st.log <+: (sup.onData st chunk).log := by
  unfold onData ingest
  split
  · exact List.prefix_rfl
  · split
    · unfold ingestAttached
      dsimp only
      split
      · exact sendAttached_grows { st with lastGs := (findDetachSequence st.lastGs chunk).2 } chunk
      · rename_i detachAt _
        have sent : st.log <+: (sup.sendAttachedIfNonEmpty
            { st with lastGs := (findDetachSequence st.lastGs chunk).2 }
              (subarrayTo chunk (detachAt - 1))).log := by
          unfold sendAttachedIfNonEmpty
          split
          · exact List.prefix_rfl
          · exact sendAttached_grows { st with lastGs := (findDetachSequence st.lastGs chunk).2 } _
        refine sent.trans ((detach_grows _).trans ?_)
        unfold ingestRemainderAfterDetach
        dsimp only
        split
        · exact List.prefix_rfl
        · exact ingestDetached_grows _ _
    · exact ingestDetached_grows st chunk

theorem run_grows (st : State) (chunks : List Bytes) : st.log <+: (sup.run st chunks).log := by
  induction chunks generalizing st with
  | nil => exact List.prefix_rfl
  | cons chunk chunks ih => exact (onData_grows st chunk).trans (ih _)

/-- Lines with no command in them are answered, and nothing else happens. -/
theorem handleDetachedLines_quiet {lines : List Text}
    (quiet : ∀ line ∈ lines, ∀ command, readLine sup.commandPrefix line ≠ .command command) {st : State}
    (fine : st.thrown = none) : ∃ messages, sup.handleDetachedLines st lines = st.printAll messages := by
  induction lines generalizing st with
  | nil => exact ⟨[], st.printAll_nil.symm⟩
  | cons line lines ih =>
    have answered : ∃ messages, sup.handleDetachedLine st line = st.printAll messages := by
      unfold handleDetachedLine
      split
      · exact ⟨[], st.printAll_nil.symm⟩
      · unfold handleCommand
        split
        · exact ⟨[_], rfl⟩
        · exact ⟨[_], rfl⟩
        · rename_i command read
          exact absurd read (quiet line List.mem_cons_self command)
    obtain ⟨messages, answered⟩ := answered
    have still : (st.printAll messages).thrown = none := fine
    obtain ⟨more, rest⟩ := ih (fun other member => quiet other (List.mem_cons_of_mem line member)) still
    refine ⟨messages ++ more, ?_⟩
    unfold handleDetachedLines
    dsimp only
    rw [answered, still, Option.isSome_none, if_neg Bool.false_ne_true, rest, State.printAll_append]

theorem lines_of_inert {chunk : Bytes} (inert : ∀ piece, piece <:+: chunk → ¬ sup.IsCommand piece) :
    ∀ line ∈ splitLines (decode chunk), ∀ command,
    readLine sup.commandPrefix line ≠ .command command := by
  intro line member command read
  obtain ⟨piece, one⟩ := splitLines_piece member
  obtain ⟨own, inside, rfl⟩ := decode_piece piece
  exact inert own inside ⟨one, command, read⟩

theorem onData_going {st : State} (going : st.stopped = false) (fine : st.thrown = none)
    (chunk : Bytes) : sup.onData st chunk = sup.ingest st chunk := by
  unfold onData
  rw [going, fine]
  rfl

theorem ingest_prompt {st : State} (prompt : st.attachedId = none) (chunk : Bytes) :
    sup.ingest st chunk = sup.ingestDetached st chunk := by
  unfold ingest
  rw [prompt]
  rfl

theorem ingest_attached {st : State} {id : Text} (attached : st.attachedId = some id) (chunk : Bytes) :
    sup.ingest st chunk = sup.ingestAttached st chunk := by
  unfold ingest
  rw [attached]
  rfl

theorem onData_inert {chunk : Bytes} (inert : ∀ piece, piece <:+: chunk → ¬ sup.IsCommand piece)
    {st : State} (prompt : st.attachedId = none) (fine : st.thrown = none) :
    ∃ messages, sup.onData st chunk = st.printAll messages := by
  unfold onData
  split
  · exact ⟨[], st.printAll_nil.symm⟩
  · unfold ingest
    rw [prompt]
    exact handleDetachedLines_quiet (lines_of_inert inert) fine

theorem run_inert {chunks : List Bytes} (inert : ∀ chunk ∈ chunks, ∀ piece,
    piece <:+: chunk → ¬ sup.IsCommand piece)
    {st : State} (prompt : st.attachedId = none) (fine : st.thrown = none) :
    ∃ messages, sup.run st chunks = st.printAll messages := by
  induction chunks generalizing st with
  | nil => exact ⟨[], st.printAll_nil.symm⟩
  | cons chunk chunks ih =>
    obtain ⟨messages, here⟩ := onData_inert (inert chunk List.mem_cons_self) prompt fine
    have still : (st.printAll messages).attachedId = none ∧ (st.printAll messages).thrown = none :=
      ⟨prompt, fine⟩
    obtain ⟨more, rest⟩ := ih (fun other member => inert other (List.mem_cons_of_mem chunk member))
      still.1 still.2
    refine ⟨messages ++ more, ?_⟩
    rw [← State.printAll_append, ← rest, ← here]
    rfl

theorem inert_singleton (b : UInt8) : ∀ piece, piece <:+: [b] → ¬ sup.IsCommand piece := by
  rintro piece inside ⟨_, command, read⟩
  have long := readLine_long read
  have short := decode_length piece
  have one := inside.length_le
  rw [List.length_singleton] at one
  omega

theorem onData_command {chunk : Bytes} (is_ : sup.IsCommand chunk) {st : State}
    (prompt : st.attachedId = none) (going : st.stopped = false) (fine : st.thrown = none) :
    ∃ command, (st.log ++ [.executed command]) <+: (sup.onData st chunk).log := by
  obtain ⟨one, command, read⟩ := is_
  refine ⟨command, ?_⟩
  have some_ : decode chunk ≠ [] := by
    intro empty
    have long := readLine_long read
    rw [empty] at long
    exact absurd long (by decide)
  have taken : sup.handleDetachedLine st (decode chunk) =
    sup.execute (st.record (.executed command)) command := by
    unfold handleDetachedLine handleCommand
    rw [if_neg some_, read]
  have arrived : sup.onData st chunk = sup.execute (st.record (.executed command)) command := by
    rw [onData_going going fine, ingest_prompt prompt, ingestDetached, splitLines_single one,
      handleDetachedLines, taken]
    split <;> rfl
  rw [arrived]
  exact execute_grows (st.record (.executed command)) command

end Supervisor

theorem findDetachSequence_other {b : UInt8} (other : b ≠ ctrlRightBracket) (lastGs : Bool)
    (bytes : Bytes) : findDetachSequence lastGs (b :: bytes) =
      ((findDetachSequence false bytes).1.map (· + 1), (findDetachSequence false bytes).2) := by
  have no : (b == ctrlRightBracket) = false := beq_false_of_ne other
  rw [findDetachSequence, no]
  rfl

theorem findDetachSequence_first (bytes : Bytes) : findDetachSequence false (ctrlRightBracket :: bytes) =
    ((findDetachSequence true bytes).1.map (· + 1), (findDetachSequence true bytes).2) := rfl

/-- The scanner goes on in the next chunk where it was. -/
theorem findDetachSequence_append (lastGs : Bool) (xs ys : Bytes)
    (none_ : (findDetachSequence lastGs xs).1 = none) : findDetachSequence lastGs (xs ++ ys) =
      ((findDetachSequence (findDetachSequence lastGs xs).2 ys).1.map (· + xs.length),
        (findDetachSequence (findDetachSequence lastGs xs).2 ys).2) := by
  induction xs generalizing lastGs with
  | nil => exact Prod.ext Option.map_id'.symm rfl
  | cons b xs ih =>
    have step {gs : Bool} (goes : ∀ bytes, findDetachSequence lastGs (b :: bytes) =
        ((findDetachSequence gs bytes).1.map (· + 1), (findDetachSequence gs bytes).2)) :
        findDetachSequence lastGs (b :: xs ++ ys) =
          ((findDetachSequence (findDetachSequence lastGs (b :: xs)).2 ys).1.map (· + (b :: xs).length),
            (findDetachSequence (findDetachSequence lastGs (b :: xs)).2 ys).2) := by
      rw [goes, Option.map_eq_none_iff] at none_
      rw [List.cons_append, goes, goes, ih gs none_, Option.map_map]
      rfl
    by_cases other : b = ctrlRightBracket
    · subst other
      cases lastGs with
      | true => cases none_
      | false => exact step findDetachSequence_first
    · exact step (findDetachSequence_other other lastGs)

theorem findDetachSequence_left {lastGs : Bool} {xs ys : Bytes}
    (none_ : (findDetachSequence lastGs (xs ++ ys)).1 = none) :
    (findDetachSequence lastGs xs).1 = none := by
  induction xs generalizing lastGs with
  | nil => rfl
  | cons b xs ih =>
    rw [List.cons_append] at none_
    by_cases other : b = ctrlRightBracket
    · subst other
      cases lastGs with
      | true => cases none_
      | false =>
        rw [findDetachSequence_first, Option.map_eq_none_iff] at none_ ⊢
        exact ih none_
    · rw [findDetachSequence_other other, Option.map_eq_none_iff] at none_ ⊢
      exact ih none_

theorem first_double {typed : Bytes} (double : [ctrlRightBracket, ctrlRightBracket] <:+: typed) :
    ∃ pre post, typed = pre ++ ctrlRightBracket :: ctrlRightBracket :: post ∧
      findDetachSequence false pre = (none, false) := by
  induction typed with
  | nil => exact absurd (List.infix_nil.mp double) (by decide)
  | cons b typed ih =>
    rcases List.infix_cons_iff.mp double with here | later
    · obtain ⟨post, whole⟩ := here
      exact ⟨[], post, whole.symm, rfl⟩
    · obtain ⟨pre, post, rfl, scanned⟩ := ih later
      by_cases other : b = ctrlRightBracket
      · subst other
        cases pre with
        | nil => exact ⟨[], ctrlRightBracket :: post, rfl, rfl⟩
        | cons c pre =>
          by_cases same : c = ctrlRightBracket
          · subst same
            exact ⟨[], _, rfl, rfl⟩
          · refine ⟨ctrlRightBracket :: c :: pre, post, rfl, ?_⟩
            rw [findDetachSequence_other same] at scanned
            rw [findDetachSequence_first, findDetachSequence_other same, scanned]
            rfl
      · refine ⟨b :: pre, post, rfl, ?_⟩
        rw [findDetachSequence_other other, scanned]
        rfl

theorem findDetachSequence_none {typed : Bytes} {lastGs : Bool}
    (single : ¬ [ctrlRightBracket, ctrlRightBracket] <:+:
      (if lastGs then ctrlRightBracket :: typed else typed)) :
    (findDetachSequence lastGs typed).1 = none := by
  induction typed generalizing lastGs with
  | nil => rfl
  | cons b typed ih =>
    by_cases other : b = ctrlRightBracket
    · subst other
      cases lastGs with
      | true => exact absurd ⟨[], typed, rfl⟩ single
      | false =>
        rw [findDetachSequence_first, ih single]
        rfl
    · rw [findDetachSequence_other other]
      have rest : ¬ [ctrlRightBracket, ctrlRightBracket] <:+: typed := by
        intro double
        refine single ?_
        cases lastGs with
        | true => exact double.trans ⟨[ctrlRightBracket, b], [], by simp⟩
        | false => exact double.trans ⟨[b], [], by simp⟩
      have later : (findDetachSequence false typed).1 = none := ih rest
      rw [later]
      rfl

theorem beforeDouble_single {typed : Bytes}
    (single : ¬ [ctrlRightBracket, ctrlRightBracket] <:+: typed) : beforeDouble typed = typed := by
  induction typed with
  | nil => rfl
  | cons b typed ih =>
    have rest := ih fun double => single (double.trans ⟨[b], [], by simp⟩)
    cases typed with
    | nil => rfl
    | cons c typed =>
      rw [beforeDouble, rest, if_neg]
      rintro ⟨rfl, rfl⟩
      exact single ⟨[], typed, rfl⟩

namespace Supervisor

variable {sup : Supervisor}

theorem onData_attached {st : State} {id : Text} (attached : st.attachedId = some id)
    (known : id ∈ sup.sandboxes) (going : st.stopped = false) (fine : st.thrown = none) {chunk : Bytes}
    (none_ : (findDetachSequence st.lastGs chunk).1 = none) : sup.onData st chunk =
      { st with lastGs := (findDetachSequence st.lastGs chunk).2, log := st.log ++ [.sent id chunk] } := by
  rw [onData_going going fine, ingest_attached attached]
  unfold ingestAttached sendAttached
  dsimp only
  rw [none_, attached]
  exact if_pos known

theorem run_attached {chunks : List Bytes} {st : State} {id : Text} (attached : st.attachedId = some id)
    (known : id ∈ sup.sandboxes) (going : st.stopped = false) (fine : st.thrown = none)
    (none_ : (findDetachSequence st.lastGs chunks.flatten).1 = none) : sup.run st chunks =
      { st with lastGs := (findDetachSequence st.lastGs chunks.flatten).2,
                log := st.log ++ chunks.map (.sent id) } := by
  induction chunks generalizing st with
  | nil =>
    rw [List.map_nil, List.append_nil]
    rfl
  | cons chunk chunks ih =>
    rw [List.flatten_cons] at none_ ⊢
    have here : (findDetachSequence st.lastGs chunk).1 = none := findDetachSequence_left none_
    rw [findDetachSequence_append st.lastGs chunk _ here, Option.map_eq_none_iff] at none_
    have first := onData_attached attached known going fine here
    rw [run, List.foldl_cons, first]
    refine Eq.trans (ih attached going fine none_) ?_
    rw [findDetachSequence_append st.lastGs chunk _ here, List.map_cons, List.append_assoc]
    rfl

theorem ingestDetached_nil (st : State) : sup.ingestDetached st [] = st := by
  have none_ : splitLines (decode []) = [[]] := rfl
  unfold ingestDetached
  rw [none_, handleDetachedLines, handleDetachedLine, if_pos rfl]
  split <;> rfl

/-- The chunk that ends a session which no chunk had begun to end. -/
theorem onData_double {st : State} {id : Text} (attached : st.attachedId = some id)
    (going : st.stopped = false) (fine : st.thrown = none) {pre : Bytes}
    (scanned : findDetachSequence st.lastGs pre = (none, false)) (rest : Bytes) :
    sup.onData st (pre ++ ctrlRightBracket :: ctrlRightBracket :: rest) =
      sup.ingestDetached (detach (sup.sendAttachedIfNonEmpty { st with lastGs := true } pre)) rest := by
  have none_ : (findDetachSequence st.lastGs pre).1 = none := by rw [scanned]
  have found := findDetachSequence_append st.lastGs pre (ctrlRightBracket :: ctrlRightBracket :: rest)
    none_
  have second : findDetachSequence false (ctrlRightBracket :: ctrlRightBracket :: rest) =
    (some 1, true) := rfl
  rw [scanned, second, Option.map_some] at found
  have upTo : subarrayTo (pre ++ ctrlRightBracket :: ctrlRightBracket :: rest)
      (((1 + pre.length : Nat) : Int) - 1) = pre := by
    unfold subarrayTo
    rw [if_neg (by omega)]
    have length : (((1 + pre.length : Nat) : Int) - 1).toNat = pre.length := by omega
    rw [length, List.take_left]
  have after : (pre ++ ctrlRightBracket :: ctrlRightBracket :: rest).drop (1 + pre.length + 1) =
    rest := by
    have place : 1 + pre.length + 1 = pre.length + 2 := by omega
    rw [place, List.drop_length_add_append]
    rfl
  rw [onData_going going fine, ingest_attached attached]
  unfold ingestAttached
  dsimp only
  rw [found]
  dsimp only
  rw [upTo, ingestRemainderAfterDetach, after]
  split
  · rename_i empty
    rw [empty, ingestDetached_nil]
  · rfl

theorem onData_second {st : State} {id : Text} (attached : st.attachedId = some id)
    (going : st.stopped = false) (fine : st.thrown = none) (held : st.lastGs = true) :
    sup.onData st [ctrlRightBracket] = detach st := by
  rw [onData_going going fine, ingest_attached attached]
  have again : { st with lastGs := true } = st := by rw [← held]
  unfold ingestAttached
  dsimp only
  rw [held]
  change detach { st with lastGs := true } = detach st
  rw [again]

theorem run_append (st : State) (chunks more : List Bytes) :
    sup.run st (chunks ++ more) = sup.run (sup.run st chunks) more := List.foldl_append

/-- Every byte a chunk of its own. -/
def singly (typed : Bytes) : List Bytes := typed.map fun b => [b]

theorem singly_flatten (typed : Bytes) : (singly typed).flatten = typed := by
  induction typed with
  | nil => rfl
  | cons b typed ih => exact congrArg (b :: ·) ih

theorem singly_nonempty (typed : Bytes) : ∀ chunk ∈ singly typed, chunk ≠ [] := by
  intro chunk member
  obtain ⟨b, _, rfl⟩ := List.mem_map.mp member
  exact List.cons_ne_nil b []

theorem run_singly {st : State} (prompt : st.attachedId = none) (fine : st.thrown = none)
    (typed : Bytes) : ∃ messages, sup.run st (singly typed) = st.printAll messages := by
  refine run_inert (fun chunk member => ?_) prompt fine
  obtain ⟨b, _, rfl⟩ := List.mem_map.mp member
  exact inert_singleton b

theorem printed_commands (messages : List Text) :
    (messages.map Effect.printed).filterMap Effect.command? = [] := by
  induction messages with
  | nil => rfl
  | cons message messages ih => exact ih

theorem printed_transitions (messages : List Text) :
    (messages.map Effect.printed).filterMap Effect.transition? = [] := by
  induction messages with
  | nil => rfl
  | cons message messages ih => exact ih

theorem printed_sentTo (id : Text) (messages : List Text) :
    sentTo id (messages.map Effect.printed) = [] := by
  induction messages with
  | nil => rfl
  | cons message messages ih => exact ih

theorem inert_of_ignores_prompt {typed : Bytes} (ignores : sup.IgnoresChunks none typed) :
    sup.Inert none typed := by
  rintro piece ⟨u, v, rfl⟩ is_
  have some_ : piece ≠ [] := by
    rintro rfl
    obtain ⟨_, command, read⟩ := is_
    exact absurd (readLine_long read) (by decide)
  have whole : Splits (u ++ piece ++ v) (singly u ++ piece :: singly v) := by
    refine ⟨?_, ?_⟩
    · rw [List.flatten_append, List.flatten_cons, singly_flatten, singly_flatten, List.append_assoc]
    · intro chunk member
      rcases List.mem_append.mp member with before | here | ⟨_, after⟩
      · exact singly_nonempty u chunk before
      · exact some_
      · exact singly_nonempty v chunk after
  have apart : Splits (u ++ piece ++ v) (singly (u ++ piece ++ v)) :=
    ⟨singly_flatten _, singly_nonempty _⟩
  have same := (ignores.alike _ _ whole apart).commands
  have alone (bytes : Bytes) : ∃ messages, sup.run (sup.start none) (singly bytes) =
    State.printAll {} messages :=
    run_singly rfl rfl bytes
  obtain ⟨messages, quiet⟩ := alone (u ++ piece ++ v)
  obtain ⟨begun, started⟩ := alone u
  have none_ : (State.printAll {} messages).log.filterMap Effect.command? = [] :=
    printed_commands messages
  rw [quiet, none_, run_append, started] at same
  have prompt : (State.printAll {} begun).attachedId = none := rfl
  obtain ⟨command, executed⟩ := onData_command is_ prompt rfl rfl
  have kept : (sup.onData (State.printAll {} begun) piece).log <+:
      (sup.run (State.printAll {} begun) (piece :: singly v)).log := run_grows _ (singly v)
  have done : .executed command ∈ (sup.run (State.printAll {} begun) (piece :: singly v)).log :=
    (executed.trans kept).subset (List.mem_append_right _ List.mem_cons_self)
  cases List.filterMap_eq_nil_iff.mp same _ done

theorem ignores_of_inert_prompt {typed : Bytes} (inert : sup.Inert none typed) :
    sup.IgnoresChunks none typed := by
  have printed {chunks : List Bytes} (splits : Splits typed chunks) :
      ∃ messages : List Text, (sup.run {} chunks).log = messages.map .printed := by
    have each : ∀ chunk ∈ chunks, ∀ piece, piece <:+: chunk → ¬ sup.IsCommand piece :=
      fun chunk member piece inside =>
      inert piece (inside.trans (splits.joined ▸ List.infix_of_mem_flatten member))
    have ran : ∃ messages, sup.run {} chunks = State.printAll {} messages := run_inert each rfl rfl
    obtain ⟨messages, ran⟩ := ran
    refine ⟨messages, ?_⟩
    rw [ran]
    rfl
  refine ⟨fun chunks other splits splits' => ?_, nofun⟩
  obtain ⟨messages, log⟩ := printed splits
  obtain ⟨more, log'⟩ := printed splits'
  change Alike (sup.run {} chunks).log (sup.run {} other).log
  rw [log, log']
  refine ⟨fun id => ?_, ?_, ?_⟩
  · rw [printed_sentTo, printed_sentTo]
  · rw [printed_transitions, printed_transitions]
  · rw [printed_commands, printed_commands]

theorem start_attached (seat : { id : Text // id ∈ sup.sandboxes ∧ id ≠ [] }) :
    ∃ message, sup.start (some seat) =
      { attachedId := some seat.1, log := [.attached seat, .printed message] } :=
  ⟨_, if_pos seat.2.1⟩

theorem sentTo_sent (id : Text) (chunks : List Bytes) :
    sentTo id (chunks.map (.sent id)) = chunks.flatten := by
  induction chunks with
  | nil => rfl
  | cons chunk chunks ih =>
    have here : Effect.sentTo id (.sent id chunk) = chunk := if_pos rfl
    rw [sentTo, List.map_cons, List.flatMap_cons, here]
    exact congrArg (chunk ++ ·) ih

theorem sentTo_one (id : Text) (data : Bytes) : sentTo id [.sent id data] = data :=
  (sentTo_sent id [data]).trans (List.append_nil data)

theorem sentTo_other {id other : Text} (apart : id ≠ other) (chunks : List Bytes) :
    sentTo other (chunks.map (.sent id)) = [] := by
  induction chunks with
  | nil => rfl
  | cons chunk chunks ih =>
    have here : Effect.sentTo other (.sent id chunk) = [] := if_neg apart
    rw [sentTo, List.map_cons, List.flatMap_cons, here]
    exact ih

theorem sentTo_append (id : Text) (log more : List Effect) :
    sentTo id (log ++ more) = sentTo id log ++ sentTo id more :=
  List.flatMap_append

theorem ignores_of_inert_attached {seat : { id : Text // id ∈ sup.sandboxes ∧ id ≠ [] }} {typed : Bytes}
    (inert : sup.Inert (some seat) typed) : sup.IgnoresChunks (some seat) typed := by
  obtain ⟨message, begun⟩ := start_attached seat
  have ran {chunks : List Bytes} (splits : Splits typed chunks) :
    (sup.run (sup.start (some seat)) chunks).log =
      [.attached seat.1, .printed message] ++ chunks.map (.sent seat.1) := by
    have none_ : (findDetachSequence false chunks.flatten).1 = none := by
      rw [splits.joined]
      exact findDetachSequence_none inert
    rw [begun, run_attached rfl seat.2.1 rfl rfl none_]
  have sent (chunks : List Bytes) : (chunks.map (Effect.sent seat.1)).filterMap Effect.transition? = [] ∧
      (chunks.map (Effect.sent seat.1)).filterMap Effect.command? = [] := by
    refine ⟨List.filterMap_eq_nil_iff.mpr fun effect member => ?_,
      List.filterMap_eq_nil_iff.mpr fun effect member => ?_⟩
    · obtain ⟨chunk, _, rfl⟩ := List.mem_map.mp member
      rfl
    · obtain ⟨chunk, _, rfl⟩ := List.mem_map.mp member
      rfl
  refine ⟨fun chunks other splits splits' => ⟨fun id => ?_, ?_, ?_⟩, fun id same chunks splits => ?_⟩
  · rw [ran splits, ran splits', sentTo_append, sentTo_append]
    by_cases own : seat.1 = id
    · rw [← own, sentTo_sent, sentTo_sent, splits.joined, splits'.joined]
    · rw [sentTo_other own, sentTo_other own]
  · rw [ran splits, ran splits', List.filterMap_append, List.filterMap_append, (sent chunks).1,
      (sent other).1]
  · rw [ran splits, ran splits', List.filterMap_append, List.filterMap_append, (sent chunks).2,
      (sent other).2]
  · cases same
    have all : ∀ effect ∈ [Effect.attached seat.1, .printed message] ++ chunks.map (.sent seat.1),
        (!effect.isDetached) = true := by
      intro effect member
      rcases List.mem_append.mp member with (⟨⟩ | ⟨_, ⟨⟩ | ⟨_, ⟨⟩⟩⟩) | member
      · rfl
      · rfl
      · obtain ⟨chunk, _, rfl⟩ := List.mem_map.mp member
        rfl
    rw [ran splits, List.takeWhile_eq_self_iff.mpr all, sentTo_append, sentTo_sent, splits.joined,
      beforeDouble_single inert]
    rfl

theorem detach_fields {st : State} {id : Text} (attached : st.attachedId = some id) :
    ∃ message, detach st =
    { st with attachedId := none, lastGs := false, log := st.log ++ [.detached id] ++ [.printed message] } := by
  unfold detach
  rw [attached]
  exact ⟨_, rfl⟩

theorem sentTo_detached {st : State} {id : Text} (attached : st.attachedId = some id)
    (fine : st.thrown = none)
    (post : Bytes) : sentTo id (sup.run (detach st) (singly post)).log = sentTo id st.log := by
  obtain ⟨message, ended⟩ := detach_fields attached
  have prompt : (detach st).attachedId = none := by rw [ended]
  have still : (detach st).thrown = none := by
    rw [ended]
    exact fine
  have later : ∃ messages, sup.run (detach st) (singly post) = (detach st).printAll messages :=
    run_singly prompt still post
  obtain ⟨messages, later⟩ := later
  rw [later, ended]
  unfold State.printAll
  have none_ : sentTo id [Effect.detached id] = [] ∧ sentTo id [Effect.printed message] = [] :=
    ⟨rfl, rfl⟩
  rw [sentTo_append, sentTo_append, sentTo_append, printed_sentTo, none_.1, none_.2, List.append_nil,
    List.append_nil, List.append_nil]

theorem sent_twoAtOnce {st : State} {id : Text} (attached : st.attachedId = some id)
    (known : id ∈ sup.sandboxes)
    (going : st.stopped = false) (fine : st.thrown = none) (held : st.lastGs = false) {pre : Bytes}
    (scanned : findDetachSequence false pre = (none, false)) (post : Bytes) :
    sentTo id (sup.run st ((pre ++ [ctrlRightBracket, ctrlRightBracket]) :: singly post)).log =
      sentTo id st.log ++ pre := by
  have sent : (sup.sendAttachedIfNonEmpty { st with lastGs := true } pre).attachedId = some id ∧
      (sup.sendAttachedIfNonEmpty { st with lastGs := true } pre).thrown = none ∧
      sentTo id (sup.sendAttachedIfNonEmpty { st with lastGs := true } pre).log =
        sentTo id st.log ++ pre := by
    unfold sendAttachedIfNonEmpty
    split
    · rename_i empty
      rw [empty, List.append_nil]
      exact ⟨attached, fine, rfl⟩
    · unfold sendAttached
      dsimp only
      rw [attached]
      dsimp only
      rw [if_pos known]
      refine ⟨rfl, fine, ?_⟩
      unfold State.record
      rw [sentTo_append, sentTo_one]
  have ends : findDetachSequence st.lastGs pre = (none, false) := by rw [held, scanned]
  rw [run, List.foldl_cons, onData_double attached going fine ends [], ingestDetached_nil]
  exact (sentTo_detached sent.1 sent.2.1 post).trans sent.2.2

theorem sent_oneByOne {st : State} {id : Text} (attached : st.attachedId = some id)
    (known : id ∈ sup.sandboxes)
    (going : st.stopped = false) (fine : st.thrown = none) (held : st.lastGs = false) {pre : Bytes}
    (scanned : findDetachSequence false pre = (none, false)) (post : Bytes) :
    sentTo id (sup.run st ((pre ++ [ctrlRightBracket]) :: [ctrlRightBracket] :: singly post)).log =
      sentTo id st.log ++ (pre ++ [ctrlRightBracket]) := by
  have none_ : (findDetachSequence false pre).1 = none := by rw [scanned]
  have begun : findDetachSequence st.lastGs (pre ++ [ctrlRightBracket]) = (none, true) := by
    rw [held, findDetachSequence_append false pre [ctrlRightBracket] none_, scanned]
    rfl
  have first := onData_attached attached known going fine (congrArg Prod.fst begun)
  generalize next : sup.onData st (pre ++ [ctrlRightBracket]) = st' at first
  have second : sup.onData st' [ctrlRightBracket] = detach st' := by
    rw [first, begun]
    exact @onData_second sup _ id attached going fine rfl
  have sent : sentTo id st'.log = sentTo id st.log ++ (pre ++ [ctrlRightBracket]) := by
    rw [first, sentTo_append, sentTo_one]
  rw [run, List.foldl_cons, List.foldl_cons, next, second, ← sent]
  refine sentTo_detached ?_ ?_ post
  · rw [first]
    exact attached
  · rw [first]
    exact fine

theorem inert_of_ignores_attached {seat : { id : Text // id ∈ sup.sandboxes ∧ id ≠ [] }} {typed : Bytes}
    (ignores : sup.IgnoresChunks (some seat) typed) : sup.Inert (some seat) typed := by
  intro double
  obtain ⟨pre, post, rfl, scanned⟩ := first_double double
  obtain ⟨message, begun⟩ := start_attached seat
  have twoAtOnce : Splits (pre ++ ctrlRightBracket :: ctrlRightBracket :: post)
      ((pre ++ [ctrlRightBracket, ctrlRightBracket]) :: singly post) := by
    refine ⟨?_, List.forall_mem_cons.mpr ⟨by simp, singly_nonempty post⟩⟩
    rw [List.flatten_cons, singly_flatten, List.append_assoc]
    rfl
  have oneByOne : Splits (pre ++ ctrlRightBracket :: ctrlRightBracket :: post)
      ((pre ++ [ctrlRightBracket]) :: [ctrlRightBracket] :: singly post) := by
    refine ⟨?_, List.forall_mem_cons.mpr ⟨by
      simp, List.forall_mem_cons.mpr ⟨by simp, singly_nonempty post⟩⟩⟩
    rw [List.flatten_cons, List.flatten_cons, singly_flatten, List.append_assoc]
    rfl
  have same := (ignores.alike _ _ twoAtOnce oneByOne).sent seat.1
  rw [begun, sent_twoAtOnce rfl seat.2.1 rfl rfl rfl scanned,
    sent_oneByOne rfl seat.2.1 rfl rfl rfl scanned] at same
  have lengths := congrArg List.length same
  simp only [List.length_append, List.length_cons, List.length_nil] at lengths
  omega

/-- Typed bytes do the same in every chunking exactly when they do nothing: no command is among them, or no
end of the session. -/
theorem supervisor_chunking_iff (sup : Supervisor) (seat : sup.Seat) (typed : Bytes) :
    sup.IgnoresChunks seat typed ↔ sup.Inert seat typed := by
  cases seat with
  | none => exact ⟨inert_of_ignores_prompt, ignores_of_inert_prompt⟩
  | some seat => exact ⟨inert_of_ignores_attached, ignores_of_inert_attached⟩

/-- One sandbox, and the prefix that is the default. -/
def oneSandbox : Supervisor := ⟨["cat".toList], "/".toList⟩

/-- Two Ctrl-] that arrive apart: the first reaches the sandbox. A command that arrives in two parts: it is
not executed. -/
theorem chunks_matter :
    ¬ oneSandbox.IgnoresChunks (some ⟨"cat".toList, by decide⟩) [ctrlRightBracket, ctrlRightBracket] ∧
      ¬ oneSandbox.IgnoresChunks none [0x2F, 0x6C, 0x73, 0x0A] := by
  refine ⟨fun ignores => ?_, fun ignores => ?_⟩
  · have together : Splits [ctrlRightBracket, ctrlRightBracket] [[ctrlRightBracket, ctrlRightBracket]] :=
      ⟨rfl, by decide⟩
    have apart : Splits [ctrlRightBracket, ctrlRightBracket] [[ctrlRightBracket], [ctrlRightBracket]] :=
      ⟨rfl, by decide⟩
    exact absurd ((ignores.alike _ _ together apart).sent "cat".toList) (by decide)
  · have together : Splits [0x2F, 0x6C, 0x73, 0x0A] [[0x2F, 0x6C, 0x73, 0x0A]] := ⟨rfl, by decide⟩
    have apart : Splits [0x2F, 0x6C, 0x73, 0x0A] [[0x2F, 0x6C], [0x73, 0x0A]] := ⟨rfl, by decide⟩
    exact absurd (ignores.alike _ _ together apart).commands (by decide)

end Supervisor

end Machinen.Runtime.Multiplex
