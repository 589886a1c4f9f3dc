import Mathlib.Logic.Function.Basic
import Machinen.Lib.Run

/-! A running VM and the calls of the runtime that checkpoint it. The two sides share two
signals, the path of the state file and the disk images. The VMM counts what changed since its
last capture; every handle of the runtime has a pointer of its own to the last checkpoint. -/
namespace Machinen.Checkpoint

abbrev Attempt := Nat
abbrev Handle := Nat
abbrev Dir := Nat

/-- `vmstateChain` of a snapshot context. -/
structure ChainState where
  parentDir : Option Dir
  sequence : Nat
deriving DecidableEq, Repr

/-- A state file: the number of its capture, the disks at the moment of the capture and the
attempts whose signal had arrived by then. A capture resets the dirty log and the dirty blocks,
so what it holds is relative to the capture before it. -/
structure Image (P V : Type) where
  serial : Nat
  answers : List Attempt
  disks : P → V

/-- Where the boot loop is: `preparing` from the read of SIGUSR1's flag to the end of
`queue_snapshot_write`, whose result is `captured` or `refused`; `storing` while the loop itself
writes what it has captured, as the thread could not be started. -/
inductive Stage where
  | running | preparing | storing | captured | refused | waiting
deriving DecidableEq, Repr

/-- The background writer; `finishing` is from the rename, or a failed write, to the end of the
thread. -/
inductive Writer (P V : Type) where
  | idle
  | writing (image : Image P V)
  | finishing

def Writer.busy {P V : Type} : Writer P V → Bool
  | .idle => false
  | _ => true

def Writer.pending {P V : Type} : Writer P V → Option (Image P V)
  | .writing image => some image
  | _ => none

inductive Progress where
  | copying | resumed | described | reported
deriving DecidableEq, Repr

/-- `copied` is what has been read of the disks. -/
inductive Phase (P V : Type) where
  | prepared
  | waiting
  | seen
  | holds (progress : Progress) (image : Image P V) (copied : P → Option V)
  | failed

def Phase.paused {P V : Type} : Phase P V → Bool
  | .waiting | .seen | .holds .copying _ _ => true
  | _ => false

def Phase.ended {P V : Type} : Phase P V → Bool
  | .holds .reported _ _ | .failed => true
  | _ => false

/-- A call of `performSnapshotVmstate` and the context it was given. -/
structure Call (P V : Type) where
  handle : Handle
  snapDir : Dir
  chain : ChainState
  phase : Phase P V := .prepared

/-- `checkpoint` of a bundle's `meta.json`. -/
structure Meta where
  parent : Option Dir
  sequence : Nat
deriving DecidableEq, Repr

/-- SIGUSR1's flag is up while `requested` lists an attempt: those that have signalled since it
was lowered. `inline` is the capture that the loop writes itself, `file` the path that the VMM
writes to and `bundles` the copies of it. -/
structure Sys (P V : Type) where
  disks : P → V
  stage : Stage := .running
  requested : List Attempt := []
  resume : Bool := false
  writer : Writer P V := .idle
  inline : Option (Image P V) := none
  captures : Nat := 0
  file : Option (Image P V) := none
  attempts : Attempt → Option (Call P V) := fun _ => none
  handles : Handle → Option ChainState
  registry : ChainState
  bundles : Dir → Option (Image P V)
  metas : Dir → Option Meta := fun _ => none

variable {P V : Type}

def Sys.start (disks : P → V) (origin : Option Dir) : Sys P V where
  disks := disks
  handles := Function.update (fun _ => none) 0 (some ⟨origin, 0⟩)
  registry := ⟨origin, 0⟩
  bundles dir := if origin = some dir then some ⟨0, [], disks⟩ else none

inductive AttemptAct (P : Type) where
  | signal
  | see
  | copyState
  | copyPlace (place : P)
  | leave
  | describe
  | update (recorded : Bool)
  | fails

inductive Act (P V : Type) where
  | guest (disks : P → V)
  | look
  | refuse
  | capture
  | captureInline
  | renameInline
  | inlineFails
  | lower
  | resume
  | resumeTimeout
  | rename
  | writeFails
  | finish
  | attach (h : Handle)
  | start (a : Attempt) (h : Handle) (dir : Dir)
  | attempt (a : Attempt) (act : AttemptAct P)

namespace Sys

def image (s : Sys P V) : Image P V := ⟨s.captures + 1, s.requested, s.disks⟩

def moved (s : Sys P V) (a : Attempt) (call : Call P V) (phase : Phase P V) : Sys P V :=
  { s with attempts := Function.update s.attempts a (some { call with phase }) }

/-- `buildVmstateCheckpoint`; the parent is the one that the context named when the call began. -/
def checkpoint (call : Call P V) : Meta := ⟨call.chain.parentDir, call.chain.sequence + 1⟩

/-- `updateVmstateChain`. -/
def advanced (call : Call P V) : ChainState := ⟨some call.snapDir, call.chain.sequence + 1⟩

variable [DecidableEq P]

def attemptStep (s : Sys P V) (a : Attempt) (call : Call P V) : AttemptAct P → Option (Sys P V)
  | .signal => match call.phase with
    | .prepared => some { s.moved a call .waiting with requested := a :: s.requested }
    | _ => none
  | .see => match call.phase, s.file with
    | .waiting, some _ => some (s.moved a call .seen)
    | _, _ => none
  | .copyState => match call.phase, s.file with
    | .seen, some image =>
      some { s.moved a call (.holds .copying image fun _ => none) with
        bundles := Function.update s.bundles call.snapDir (some image) }
    | _, _ => none
  | .copyPlace place => match call.phase with
    | .holds .copying image copied =>
      some (s.moved a call (.holds .copying image (Function.update copied place (some (s.disks place)))))
    | _ => none
  | .leave => match call.phase with
    | .holds .copying image copied =>
      some { s.moved a call (.holds .resumed image copied) with resume := true }
    | _ => none
  | .describe => match call.phase with
    | .holds .resumed image copied =>
      some { s.moved a call (.holds .described image copied) with
        metas := Function.update s.metas call.snapDir (some (checkpoint call)) }
    | _ => none
  | .update recorded => match call.phase with
    | .holds .described image copied =>
      some { s.moved a call (if recorded then .holds .reported image copied else .failed) with
        handles := Function.update s.handles call.handle (some (advanced call))
        registry := if recorded then advanced call else s.registry }
    | _ => none
  | .fails =>
    if call.phase.ended then none
    else some { s.moved a call .failed with resume := s.resume || call.phase.paused }

def step (s : Sys P V) : Act P V → Option (Sys P V)
  | .guest disks => if s.stage = .running then some { s with disks } else none
  | .look =>
    if s.stage = .running ∧ s.requested ≠ [] then some { s with stage := .preparing, resume := false }
    else none
  | .refuse => if s.stage = .preparing then some { s with stage := .refused } else none
  | .capture =>
    if s.stage = .preparing ∧ s.writer.busy = false then
      some { s with stage := .captured, writer := .writing s.image, captures := s.captures + 1 }
    else none
  | .captureInline =>
    if s.stage = .preparing ∧ s.writer.busy = false then
      some { s with stage := .storing, inline := some s.image }
    else none
  | .renameInline => match s.stage, s.inline with
    | .storing, some image =>
      some { s with stage := .captured, inline := none, file := some image, captures := s.captures + 1 }
    | _, _ => none
  | .inlineFails =>
    -- the dirty log is cleared only after a write that succeeds, so this is no capture
    if s.stage = .storing then some { s with stage := .refused, inline := none } else none
  | .lower => match s.stage with
    | .captured => some { s with stage := .waiting, requested := [] }
    | .refused => some { s with stage := .running, requested := [] }
    | _ => none
  | .resume =>
    if s.stage = .waiting ∧ s.resume = true then some { s with stage := .running, resume := false }
    else none
  | .resumeTimeout =>
    if s.stage = .waiting ∧ s.resume = false then some { s with stage := .running } else none
  | .rename => match s.writer with
    | .writing image => some { s with writer := .finishing, file := some image }
    | _ => none
  | .writeFails => match s.writer with
    | .writing _ => some { s with writer := .finishing }
    | _ => none
  | .finish => match s.writer with
    | .finishing => some { s with writer := .idle }
    | _ => none
  | .attach h => some { s with handles := Function.update s.handles h (some s.registry) }
  | .start a h dir => match s.attempts a, s.handles h, s.bundles dir with
    | none, some chain, none =>
      some { s with
        attempts := Function.update s.attempts a (some ⟨h, dir, chain, .prepared⟩)
        file := none }
    | _, _, _ => none
  | .attempt a act => (s.attempts a).bind fun call => s.attemptStep a call act

inductive Moved (s : Sys P V) : Act P V → Sys P V → Prop
  | guest (disks : P → V) (running : s.stage = .running) : Moved s (.guest disks) { s with disks }
  | look (running : s.stage = .running) (asked : s.requested ≠ []) :
    Moved s .look { s with stage := .preparing, resume := false }
  | refuse (preparing : s.stage = .preparing) : Moved s .refuse { s with stage := .refused }
  | capture (preparing : s.stage = .preparing) (free : s.writer.busy = false) :
    Moved s .capture
      { s with stage := .captured, writer := .writing s.image, captures := s.captures + 1 }
  | captureInline (preparing : s.stage = .preparing) (free : s.writer.busy = false) :
    Moved s .captureInline { s with stage := .storing, inline := some s.image }
  | renameInline (image : Image P V) (storing : s.stage = .storing) (inline : s.inline = some image) :
    Moved s .renameInline
      { s with stage := .captured, inline := none, file := some image, captures := s.captures + 1 }
  | inlineFails (storing : s.stage = .storing) :
    Moved s .inlineFails { s with stage := .refused, inline := none }
  | lowerCaptured (captured : s.stage = .captured) :
    Moved s .lower { s with stage := .waiting, requested := [] }
  | lowerRefused (refused : s.stage = .refused) :
    Moved s .lower { s with stage := .running, requested := [] }
  | resume (waiting : s.stage = .waiting) (raised : s.resume = true) :
    Moved s .resume { s with stage := .running, resume := false }
  | resumeTimeout (waiting : s.stage = .waiting) (down : s.resume = false) :
    Moved s .resumeTimeout { s with stage := .running }
  | rename (image : Image P V) (writing : s.writer = .writing image) :
    Moved s .rename { s with writer := .finishing, file := some image }
  | writeFails (image : Image P V) (writing : s.writer = .writing image) :
    Moved s .writeFails { s with writer := .finishing }
  | finish (finishing : s.writer = .finishing) : Moved s .finish { s with writer := .idle }
  | attach (h : Handle) :
    Moved s (.attach h) { s with handles := Function.update s.handles h (some s.registry) }
  | start (a : Attempt) (h : Handle) (dir : Dir) (chain : ChainState) (fresh : s.attempts a = none)
    (pointer : s.handles h = some chain) (empty : s.bundles dir = none) :
    Moved s (.start a h dir)
      { s with
        attempts := Function.update s.attempts a (some ⟨h, dir, chain, .prepared⟩)
        file := none }
  | signal (a : Attempt) (call : Call P V) (there : s.attempts a = some call)
    (phase : call.phase = .prepared) :
    Moved s (.attempt a .signal) { s.moved a call .waiting with requested := a :: s.requested }
  | see (a : Attempt) (call : Call P V) (image : Image P V) (there : s.attempts a = some call)
    (phase : call.phase = .waiting) (file : s.file = some image) :
    Moved s (.attempt a .see) (s.moved a call .seen)
  | copyState (a : Attempt) (call : Call P V) (image : Image P V) (there : s.attempts a = some call)
    (phase : call.phase = .seen) (file : s.file = some image) :
    Moved s (.attempt a .copyState)
      { s.moved a call (.holds .copying image fun _ => none) with
        bundles := Function.update s.bundles call.snapDir (some image) }
  | copyPlace (a : Attempt) (call : Call P V) (place : P) (image : Image P V) (copied : P → Option V)
    (there : s.attempts a = some call) (phase : call.phase = .holds .copying image copied) :
    Moved s (.attempt a (.copyPlace place))
      (s.moved a call (.holds .copying image (Function.update copied place (some (s.disks place)))))
  | leave (a : Attempt) (call : Call P V) (image : Image P V) (copied : P → Option V)
    (there : s.attempts a = some call) (phase : call.phase = .holds .copying image copied) :
    Moved s (.attempt a .leave)
      { s.moved a call (.holds .resumed image copied) with resume := true }
  | describe (a : Attempt) (call : Call P V) (image : Image P V) (copied : P → Option V)
    (there : s.attempts a = some call) (phase : call.phase = .holds .resumed image copied) :
    Moved s (.attempt a .describe)
      { s.moved a call (.holds .described image copied) with
        metas := Function.update s.metas call.snapDir (some (checkpoint call)) }
  | report (a : Attempt) (call : Call P V) (image : Image P V) (copied : P → Option V)
    (there : s.attempts a = some call) (phase : call.phase = .holds .described image copied) :
    Moved s (.attempt a (.update true))
      { s.moved a call (.holds .reported image copied) with
        handles := Function.update s.handles call.handle (some (advanced call))
        registry := advanced call }
  | unrecorded (a : Attempt) (call : Call P V) (image : Image P V) (copied : P → Option V)
    (there : s.attempts a = some call) (phase : call.phase = .holds .described image copied) :
    Moved s (.attempt a (.update false))
      { s.moved a call .failed with
        handles := Function.update s.handles call.handle (some (advanced call)) }
  | fails (a : Attempt) (call : Call P V) (there : s.attempts a = some call)
    (going : call.phase.ended = false) :
    Moved s (.attempt a .fails)
      { s.moved a call .failed with resume := s.resume || call.phase.paused }

theorem step_moved {s t : Sys P V} {act : Act P V} (next : step s act = some t) : Moved s act t := by
  cases act with
  | guest disks =>
    obtain ⟨running, rfl⟩ := Run.guarded next
    exact .guest disks running
  | look =>
    obtain ⟨⟨running, asked⟩, rfl⟩ := Run.guarded next
    exact .look running asked
  | refuse =>
    obtain ⟨preparing, rfl⟩ := Run.guarded next
    exact .refuse preparing
  | capture =>
    obtain ⟨⟨preparing, free⟩, rfl⟩ := Run.guarded next
    exact .capture preparing free
  | captureInline =>
    obtain ⟨⟨preparing, free⟩, rfl⟩ := Run.guarded next
    exact .captureInline preparing free
  | renameInline =>
    simp only [step] at next
    split at next
    · rename_i image storing inline
      cases next
      exact .renameInline image storing inline
    · contradiction
  | inlineFails =>
    obtain ⟨storing, rfl⟩ := Run.guarded next
    exact .inlineFails storing
  | lower =>
    simp only [step] at next
    split at next
    · rename_i captured
      cases next
      exact .lowerCaptured captured
    · rename_i refused
      cases next
      exact .lowerRefused refused
    · contradiction
  | resume =>
    obtain ⟨⟨waiting, raised⟩, rfl⟩ := Run.guarded next
    exact .resume waiting raised
  | resumeTimeout =>
    obtain ⟨⟨waiting, down⟩, rfl⟩ := Run.guarded next
    exact .resumeTimeout waiting down
  | rename =>
    simp only [step] at next
    split at next
    · rename_i image writing
      cases next
      exact .rename image writing
    · contradiction
  | writeFails =>
    simp only [step] at next
    split at next
    · rename_i image writing
      cases next
      exact .writeFails image writing
    · contradiction
  | finish =>
    simp only [step] at next
    split at next
    · rename_i finishing
      cases next
      exact .finish finishing
    · contradiction
  | attach h =>
    cases next
    exact .attach h
  | start a h dir =>
    simp only [step] at next
    split at next
    · rename_i chain fresh pointer empty
      cases next
      exact .start a h dir chain fresh pointer empty
    · contradiction
  | attempt a act =>
    obtain ⟨call, there, next⟩ := Option.bind_eq_some_iff.mp next
    cases act with
    | signal =>
      simp only [attemptStep] at next
      split at next
      · rename_i phase
        cases next
        exact .signal a call there phase
      · contradiction
    | see =>
      simp only [attemptStep] at next
      split at next
      · rename_i image phase file
        cases next
        exact .see a call image there phase file
      · contradiction
    | copyState =>
      simp only [attemptStep] at next
      split at next
      · rename_i image phase file
        cases next
        exact .copyState a call image there phase file
      · contradiction
    | copyPlace place =>
      simp only [attemptStep] at next
      split at next
      · rename_i image copied phase
        cases next
        exact .copyPlace a call place image copied there phase
      · contradiction
    | leave =>
      simp only [attemptStep] at next
      split at next
      · rename_i image copied phase
        cases next
        exact .leave a call image copied there phase
      · contradiction
    | describe =>
      simp only [attemptStep] at next
      split at next
      · rename_i image copied phase
        cases next
        exact .describe a call image copied there phase
      · contradiction
    | update recorded =>
      simp only [attemptStep] at next
      split at next
      · rename_i image copied phase
        cases next
        cases recorded with
        | true => exact .report a call image copied there phase
        | false => exact .unrecorded a call image copied there phase
      · contradiction
    | fails =>
      simp only [attemptStep] at next
      split at next
      · contradiction
      · rename_i going
        cases next
        exact .fails a call there (Bool.eq_false_iff.mpr going)

end Sys

end Machinen.Checkpoint
