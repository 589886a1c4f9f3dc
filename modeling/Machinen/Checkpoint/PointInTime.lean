import Machinen.Checkpoint.Freshness

/-! Whether the disks that an attempt copies are the disks at the moment of the capture it goes
with. The VMM stands still from the capture to SIGUSR2; the flag of that signal says nothing of
the attempt that sent it, and the wait for it is bounded. -/
namespace Machinen.Checkpoint.Sys

variable {P V : Type}

def Outstanding (s : Sys P V) (a : Attempt) : Prop :=
  ∃ call, s.attempts a = some call ∧ call.phase.paused = true

def Holds (s : Sys P V) (a : Attempt) (progress : Progress) (image : Image P V)
    (copied : P → Option V) : Prop :=
  ∃ call, s.attempts a = some call ∧ call.phase = .holds progress image copied

/-- An attempt signals when no other is outstanding, nothing is at the path or on its way there
and no SIGUSR2 is left over for the capture that is being made; and the VMM gives up the wait
for SIGUSR2 only while the outstanding attempt has a signal that it has yet to take. -/
def Exclusive (s : Sys P V) : Act P V → Prop
  | .attempt _ .signal =>
    s.file = none ∧ s.writer.pending = none ∧ s.inline = none ∧ (∀ b, ¬ s.Outstanding b) ∧
      (s.stage = .preparing → s.resume = false)
  | .resumeTimeout => ∀ b, s.Outstanding b → b ∈ s.requested
  | _ => True

/-- The VMM has captured this image for the attempt and nothing moves until its SIGUSR2. -/
structure Stopped (s : Sys P V) (a : Attempt) (image : Image P V) : Prop where
  disks : image.disks = s.disks
  down : s.resume = false
  stage : s.stage = .captured ∨ s.stage = .waiting ∧ a ∉ s.requested

structure Storing (s : Sys P V) (image : Image P V) : Prop where
  disks : image.disks = s.disks
  down : s.resume = false
  stage : s.stage = .storing

structure Held (s : Sys P V) : Prop where
  single : ∀ a b, s.Outstanding a → s.Outstanding b → a = b
  heard : ∀ a, s.Outstanding a → s.stage ≠ .captured → s.stage ≠ .refused → s.requested ≠ [] →
    a ∈ s.requested
  preparing : ∀ a, s.Outstanding a → s.stage = .preparing → s.resume = false
  inline : ∀ a image, s.Outstanding a → s.inline = some image → s.Storing image
  onTheWay : ∀ a image, s.Outstanding a → s.OnTheWay image → s.Stopped a image
  copying : ∀ a image copied, s.Holds a .copying image copied → s.Stopped a image
  copied : ∀ a progress image copied, s.Holds a progress image copied →
    ∀ place value, copied place = some value → value = image.disks place

variable {image : Image P V}

theorem Stopped.not_running {s : Sys P V} {a : Attempt}
    (stopped : s.Stopped a image) : s.stage ≠ .running := by
  rcases stopped.stage with captured | ⟨waiting, -⟩
  · exact captured ▸ nofun
  · exact waiting ▸ nofun

theorem Stopped.not_preparing {s : Sys P V} {a : Attempt}
    (stopped : s.Stopped a image) : s.stage ≠ .preparing := by
  rcases stopped.stage with captured | ⟨waiting, -⟩
  · exact captured ▸ nofun
  · exact waiting ▸ nofun

theorem Stopped.not_refused {s : Sys P V} {a : Attempt}
    (stopped : s.Stopped a image) : s.stage ≠ .refused := by
  rcases stopped.stage with captured | ⟨waiting, -⟩
  · exact captured ▸ nofun
  · exact waiting ▸ nofun

theorem Stopped.not_storing {s : Sys P V} {a : Attempt}
    (stopped : s.Stopped a image) : s.stage ≠ .storing := by
  rcases stopped.stage with captured | ⟨waiting, -⟩
  · exact captured ▸ nofun
  · exact waiting ▸ nofun

theorem Holds.outstanding {s : Sys P V} {a : Attempt} {copied : P → Option V}
    (holds : s.Holds a .copying image copied) : s.Outstanding a := by
  obtain ⟨call, there, phase⟩ := holds
  exact ⟨call, there, by rw [phase]; rfl⟩

theorem held_start (disks : P → V) (origin : Option Dir) : Held (start disks origin) := by
  constructor
  · rintro a b ⟨call, there, -⟩
    exact nomatch there
  · rintro a ⟨call, there, -⟩
    exact nomatch there
  · rintro a ⟨call, there, -⟩
    exact nomatch there
  · rintro a image ⟨call, there, -⟩
    exact nomatch there
  · rintro a image ⟨call, there, -⟩
    exact nomatch there
  · rintro a image copied ⟨call, there, -⟩
    exact nomatch there
  · rintro a progress image copied ⟨call, there, -⟩
    exact nomatch there

section

variable {s t : Sys P V} {a : Attempt} {call : Call P V}
  (changed : t.attempts = Function.update s.attempts a (some call))

include changed

theorem outstanding_update {b : Attempt} (out : t.Outstanding b) :
    b = a ∧ call.phase.paused = true ∨ b ≠ a ∧ s.Outstanding b :=
  call_update changed out

theorem holds_update {b : Attempt} {progress : Progress} {copied : P → Option V}
    (holds : t.Holds b progress image copied) :
    b = a ∧ call.phase = .holds progress image copied ∨ s.Holds b progress image copied :=
  (call_update changed holds).imp_right And.right

theorem Held.attempt (inv : Held s) (disks : t.disks = s.disks) (stage : t.stage = s.stage)
    (requested : t.requested = s.requested) (resume : t.resume = s.resume)
    (inline : t.inline = s.inline) (fewer : ∀ image, t.OnTheWay image → s.OnTheWay image)
    (outstanding : call.phase.paused = true → s.Outstanding a)
    (copying : ∀ image copied, call.phase = .holds .copying image copied → s.Stopped a image)
    (copied : ∀ progress image copied, call.phase = .holds progress image copied →
      ∀ place value, copied place = some value → value = image.disks place) : Held t := by
  have before : ∀ b, t.Outstanding b → s.Outstanding b := by
    intro b out
    rcases outstanding_update changed out with ⟨rfl, phase⟩ | ⟨-, there⟩
    · exact outstanding phase
    · exact there
  have stopped : ∀ b image, s.Stopped b image → t.Stopped b image := by
    rintro b image ⟨same, down, place⟩
    exact ⟨disks ▸ same, resume ▸ down, stage ▸ requested ▸ place⟩
  constructor
  · exact fun b c out out' => inv.single b c (before b out) (before c out')
  · rw [stage, requested]
    exact fun b out => inv.heard b (before b out)
  · rw [stage, resume]
    exact fun b out => inv.preparing b (before b out)
  · intro b image out stores
    obtain ⟨same, down, place⟩ := inv.inline b image (before b out) (inline ▸ stores)
    exact ⟨disks ▸ same, resume ▸ down, stage ▸ place⟩
  · exact fun b image out way => stopped b image (inv.onTheWay b image (before b out) (fewer image way))
  · intro b image copied holds
    rcases holds_update changed holds with ⟨rfl, phase⟩ | there
    · exact stopped b image (copying image copied phase)
    · exact stopped b image (inv.copying b image copied there)
  · intro b progress image found holds
    rcases holds_update changed holds with ⟨rfl, phase⟩ | there
    · exact copied progress image found phase
    · exact inv.copied b progress image found there

theorem Held.released (inv : Held s) (out : s.Outstanding a) (ended : call.phase.paused = false)
    (copied : ∀ progress image copied, call.phase = .holds progress image copied →
      ∀ place value, copied place = some value → value = image.disks place) : Held t := by
  have nobody : ∀ b, ¬ t.Outstanding b := by
    intro b out'
    rcases outstanding_update changed out' with ⟨-, phase⟩ | ⟨other, there⟩
    · rw [ended] at phase
      exact nomatch phase
    · exact other (inv.single b a there out)
  constructor
  · exact fun b _ out' => absurd out' (nobody b)
  · exact fun b out' => absurd out' (nobody b)
  · exact fun b out' => absurd out' (nobody b)
  · exact fun b _ out' => absurd out' (nobody b)
  · exact fun b _ out' => absurd out' (nobody b)
  · exact fun b _ _ holds => absurd holds.outstanding (nobody b)
  · intro b progress image found holds
    rcases holds_update changed holds with ⟨rfl, phase⟩ | there
    · exact copied progress image found phase
    · exact inv.copied b progress image found there

end

theorem Held.vmm {s t : Sys P V} (inv : Held s) (attempts : t.attempts = s.attempts)
    (heard : ∀ a, s.Outstanding a → t.stage ≠ .captured → t.stage ≠ .refused → t.requested ≠ [] →
      a ∈ t.requested)
    (preparing : ∀ a, s.Outstanding a → t.stage = .preparing → t.resume = false)
    (inline : ∀ a image, s.Outstanding a → t.inline = some image → t.Storing image)
    (onTheWay : ∀ a image, s.Outstanding a → t.OnTheWay image → t.Stopped a image)
    (copying : ∀ a image, s.Outstanding a → s.Stopped a image → t.Stopped a image) : Held t := by
  have before : ∀ b, t.Outstanding b → s.Outstanding b := by
    rintro b ⟨call, there, phase⟩
    exact ⟨call, attempts ▸ there, phase⟩
  have held : ∀ b progress image copied, t.Holds b progress image copied →
      s.Holds b progress image copied := by
    rintro b progress image copied ⟨call, there, phase⟩
    exact ⟨call, attempts ▸ there, phase⟩
  constructor
  · exact fun b c out out' => inv.single b c (before b out) (before c out')
  · exact fun b out => heard b (before b out)
  · exact fun b out => preparing b (before b out)
  · exact fun b image out => inline b image (before b out)
  · exact fun b image out => onTheWay b image (before b out)
  · intro b image copied holds
    have there := held b .copying image copied holds
    exact copying b image there.outstanding (inv.copying b image copied there)
  · exact fun b progress image copied holds => inv.copied b progress image copied (held b _ _ _ holds)

theorem Held.moves {s t : Sys P V} (inv : Held s) (attempts : t.attempts = s.attempts)
    (requested : t.requested = s.requested) (fewer : ∀ image, t.OnTheWay image → s.OnTheWay image)
    (stage : s.stage ≠ .captured ∧ s.stage ≠ .refused)
    (preparing : t.stage = .preparing → t.resume = false)
    (inline : ∀ a image, s.Outstanding a → t.inline = some image → t.Storing image)
    (free : ∀ a image, s.Outstanding a → ¬ s.Stopped a image) : Held t := by
  refine inv.vmm attempts ?_ (fun _ _ => preparing) inline ?_ fun a image out stopped =>
    absurd stopped (free a image out)
  · rw [requested]
    exact fun a out _ _ => inv.heard a out stage.1 stage.2
  · exact fun a image out way => absurd (inv.onTheWay a image out (fewer image way)) (free a image out)

theorem Held.writes {s t : Sys P V} (inv : Held s) (attempts : t.attempts = s.attempts)
    (disks : t.disks = s.disks) (stage : t.stage = s.stage) (requested : t.requested = s.requested)
    (resume : t.resume = s.resume) (inline : t.inline = s.inline)
    (fewer : ∀ image, t.OnTheWay image → s.OnTheWay image) : Held t := by
  have stopped : ∀ b image, s.Stopped b image → t.Stopped b image := by
    rintro b image ⟨same, down, place⟩
    exact ⟨disks ▸ same, resume ▸ down, stage ▸ requested ▸ place⟩
  refine inv.vmm attempts ?_ ?_ ?_ ?_ fun a image _ => stopped a image
  · rw [stage, requested]
    exact inv.heard
  · rw [stage, resume]
    exact inv.preparing
  · intro a image out stores
    obtain ⟨same, down, place⟩ := inv.inline a image out (inline ▸ stores)
    exact ⟨disks ▸ same, resume ▸ down, stage ▸ place⟩
  · exact fun a image out way => stopped a image (inv.onTheWay a image out (fewer image way))

theorem Held.not_inline {s : Sys P V} (inv : Held s) (elsewhere : s.stage ≠ .storing) {a : Attempt}
    {Q : Prop} (out : s.Outstanding a) (stores : s.inline = some image) : Q :=
  absurd (inv.inline a image out stores).stage elsewhere

theorem Held.captured {s t : Sys P V} (inv : Held s) (attempts : t.attempts = s.attempts)
    (free : ∀ a image, ¬ s.Stopped a image) (down : ∀ a, s.Outstanding a → s.resume = false)
    (captured : t.stage = .captured) (inline : ∀ a image, s.Outstanding a → t.inline ≠ some image)
    (disks : t.disks = s.disks) (resume : t.resume = s.resume)
    (new : ∀ a image, s.Outstanding a → t.OnTheWay image → s.OnTheWay image ∨
      image.disks = s.disks) : Held t := by
  refine inv.vmm attempts (fun _ _ elsewhere => absurd captured elsewhere) ?_ ?_ ?_
    fun a image _ stopped => absurd stopped (free a image)
  · rw [captured]
    exact nofun
  · exact fun a image out stores => absurd stores (inline a image out)
  · intro a image out way
    rcases new a image out way with before | same
    · exact absurd (inv.onTheWay a image out before) (free a image)
    · exact ⟨same.trans disks.symm, resume.trans (down a out), .inl captured⟩

variable [DecidableEq P]

theorem held_step {s t : Sys P V} {act : Act P V} (inv : Held s) (exclusive : s.Exclusive act)
    (next : s.step act = some t) : Held t := by
  cases step_moved next with
  | guest disks running =>
    refine inv.moves rfl rfl (fun _ => id) ⟨running ▸ nofun, running ▸ nofun⟩ ?_ ?_ ?_
    · exact fun preparing => nomatch running.symm.trans preparing
    · exact fun _ _ => inv.not_inline (running ▸ nofun)
    · exact fun _ _ _ stopped => stopped.not_running running
  | look running asked =>
    exact inv.moves rfl rfl (fun _ => id) ⟨running ▸ nofun, running ▸ nofun⟩ (fun _ => rfl)
      (fun _ _ => inv.not_inline (running ▸ nofun)) fun _ _ _ stopped => stopped.not_running running
  | refuse preparing =>
    exact inv.moves rfl rfl (fun _ => id) ⟨preparing ▸ nofun, preparing ▸ nofun⟩ nofun
      (fun _ _ => inv.not_inline (preparing ▸ nofun))
      fun _ _ _ stopped => stopped.not_preparing preparing
  | capture preparing free =>
    refine inv.captured rfl (fun _ _ stopped => stopped.not_preparing preparing)
      (fun a out => inv.preparing a out preparing) rfl
      (fun _ _ out stores => inv.not_inline (preparing ▸ nofun) out stores) rfl rfl ?_
    rintro a image - (writing | file)
    · cases writing
      exact .inr rfl
    · exact .inl (.inr file)
  | captureInline preparing free =>
    refine inv.moves rfl rfl (fun _ => id) ⟨preparing ▸ nofun, preparing ▸ nofun⟩ nofun ?_
      fun _ _ _ stopped => stopped.not_preparing preparing
    rintro a image out ⟨⟩
    exact ⟨rfl, inv.preparing a out preparing, rfl⟩
  | renameInline image storing inline =>
    refine inv.captured rfl (fun _ _ stopped => stopped.not_storing storing)
      (fun a out => (inv.inline a image out inline).down) rfl nofun rfl rfl ?_
    rintro a other out (writing | file)
    · exact .inl (.inl writing)
    · cases file
      exact .inr (inv.inline a image out inline).disks
  | inlineFails storing =>
    exact inv.moves rfl rfl (fun _ => id) ⟨storing ▸ nofun, storing ▸ nofun⟩ nofun nofun
      fun _ _ _ stopped => stopped.not_storing storing
  | lowerCaptured captured =>
    have stopped : ∀ a image, s.Stopped a image →
        Stopped { s with stage := .waiting, requested := [] } a image :=
      fun _ _ stopped => ⟨stopped.disks, stopped.down, .inr ⟨rfl, List.not_mem_nil⟩⟩
    exact inv.vmm rfl (fun _ _ _ _ some_ => absurd rfl some_) nofun
      (fun _ _ => inv.not_inline (captured ▸ nofun))
      (fun a image out way => stopped a image (inv.onTheWay a image out way)) fun a image _ =>
      stopped a image
  | lowerRefused refused =>
    have free : ∀ a image, s.Stopped a image →
        Stopped { s with stage := .running, requested := [] } a image :=
      fun _ _ stopped => absurd refused stopped.not_refused
    exact inv.vmm rfl (fun _ _ _ _ some_ => absurd rfl some_) nofun
      (fun _ _ => inv.not_inline (refused ▸ nofun))
      (fun a image out way => free a image (inv.onTheWay a image out way)) fun a image _ => free a image
  | resume waiting raised =>
    refine inv.moves rfl rfl (fun _ => id) ⟨waiting ▸ nofun, waiting ▸ nofun⟩ nofun
      (fun _ _ => inv.not_inline (waiting ▸ nofun)) ?_
    intro a image out stopped
    exact nomatch stopped.down.symm.trans raised
  | resumeTimeout waiting down =>
    refine inv.moves rfl rfl (fun _ => id) ⟨waiting ▸ nofun, waiting ▸ nofun⟩ nofun
      (fun _ _ => inv.not_inline (waiting ▸ nofun)) ?_
    intro a image out stopped
    rcases stopped.stage with captured | ⟨-, taken⟩
    · exact nomatch waiting.symm.trans captured
    · exact taken (exclusive a out)
  | rename image writing =>
    refine inv.writes rfl rfl rfl rfl rfl rfl ?_
    rintro other (writing' | file)
    · exact nomatch writing'
    · cases file
      exact .inl writing
  | writeFails image writing | finish finishing =>
    refine inv.writes rfl rfl rfl rfl rfl rfl ?_
    rintro other (writing' | file)
    · exact nomatch writing'
    · exact .inr file
  | attach h => exact inv.writes rfl rfl rfl rfl rfl rfl fun _ => id
  | start a h dir chain fresh pointer empty =>
    refine inv.attempt (a := a) rfl rfl rfl rfl rfl rfl ?_ nofun nofun nofun
    rintro image (writing | file)
    · exact .inl writing
    · exact nomatch file
  | signal a call there phase =>
    obtain ⟨absent, unwritten, idle, nobody, unresumed⟩ := exclusive
    have own : ∀ b, Outstanding { s.moved a call .waiting with requested := a :: s.requested } b →
        b = a := by
      intro b out
      rcases outstanding_update (s := s) rfl out with ⟨same, -⟩ | ⟨-, before⟩
      · exact same
      · exact absurd before (nobody b)
    constructor
    · exact fun b c out out' => (own b out).trans (own c out').symm
    · exact fun b out _ _ _ => own b out ▸ List.mem_cons_self
    · exact fun _ _ => unresumed
    · exact fun b image _ stores => nomatch idle.symm.trans stores
    · rintro b image - (writing | file)
      · have written : s.writer = .writing image := writing
        rw [written] at unwritten
        exact nomatch unwritten
      · exact nomatch absent.symm.trans file
    · intro b image copied holds
      rcases holds_update (s := s) rfl holds with ⟨-, none_⟩ | before
      · exact nomatch none_
      · exact absurd before.outstanding (nobody b)
    · intro b progress image copied holds
      rcases holds_update (s := s) rfl holds with ⟨-, none_⟩ | before
      · exact nomatch none_
      · exact inv.copied b progress image copied before
  | see a call image there phase file =>
    exact inv.attempt (a := a) rfl rfl rfl rfl rfl rfl (fun _ => id)
      (fun _ => ⟨call, there, by rw [phase]; rfl⟩) nofun nofun
  | copyState a call image there phase file =>
    have out : s.Outstanding a := ⟨call, there, by rw [phase]; rfl⟩
    refine inv.attempt (a := a) rfl rfl rfl rfl rfl rfl (fun _ => id) (fun _ => out) ?_ ?_
    · rintro other copied ⟨⟩
      exact inv.onTheWay a image out (.inr file)
    · rintro progress other copied ⟨⟩ place value read
      exact nomatch read
  | copyPlace a call place image copied there phase =>
    have stopped := inv.copying a image copied ⟨call, there, phase⟩
    have before := inv.copied a .copying image copied ⟨call, there, phase⟩
    refine inv.attempt (a := a) rfl rfl rfl rfl rfl rfl (fun _ => id)
      (fun _ => ⟨call, there, by rw [phase]; rfl⟩) ?_ ?_
    · rintro other found ⟨⟩
      exact stopped
    · rintro progress other found ⟨⟩ place' value read
      by_cases same : place' = place
      · subst same
        rw [Function.update_self] at read
        rw [stopped.disks]
        exact (Option.some.inj read).symm
      · rw [Function.update_of_ne same] at read
        exact before place' value read
  | leave a call image copied there phase =>
    refine inv.released (a := a) rfl ⟨call, there, by rw [phase]; rfl⟩ rfl ?_
    rintro progress other found ⟨⟩
    exact inv.copied a .copying image copied ⟨call, there, phase⟩
  | describe a call image copied there phase
  | report a call image copied there phase =>
    refine inv.attempt (a := a) rfl rfl rfl rfl rfl rfl (fun _ => id) nofun nofun ?_
    rintro progress other found ⟨⟩
    exact inv.copied a _ image copied ⟨call, there, phase⟩
  | unrecorded a call image copied there phase =>
    exact inv.attempt (a := a) rfl rfl rfl rfl rfl rfl (fun _ => id) nofun nofun nofun
  | fails a call there going =>
    by_cases paused : call.phase.paused = true
    · exact inv.released (a := a) rfl ⟨call, there, paused⟩ rfl nofun
    · refine inv.attempt (a := a) rfl rfl rfl rfl ?_ rfl (fun _ => id) nofun nofun nofun
      rw [Bool.eq_false_iff.mpr paused]
      exact Bool.or_false s.resume

/-- The image that an attempt copies, or that the VMM has captured while it is outstanding. -/
def Captured (s : Sys P V) (a : Attempt) (image : Image P V) : Prop :=
  (∃ copied, s.Holds a .copying image copied) ∨ s.Outstanding a ∧ s.Owed image

omit [DecidableEq P] in
theorem Held.stands {s : Sys P V} (inv : Held s) {a : Attempt}
    (captured : s.Captured a image) : s.stage ≠ .running ∧ s.disks = image.disks := by
  rcases captured with ⟨copied, holds⟩ | ⟨out, stores | way⟩
  · have stopped := inv.copying a image copied holds
    exact ⟨stopped.not_running, stopped.disks.symm⟩
  · have storing := inv.inline a image out stores
    exact ⟨storing.stage ▸ nofun, storing.disks.symm⟩
  · have stopped := inv.onTheWay a image out way
    exact ⟨stopped.not_running, stopped.disks.symm⟩

/-- In such a run every place that an attempt has read is as it was when its image was captured;
and from that capture until the attempt leaves the paused section the VMM runs no guest. -/
theorem copies_at_the_capture (disks : P → V) (origin : Option Dir) (acts : List (Act P V))
    (t : Sys P V) (exclusive : Run.Meets step Exclusive (start disks origin) acts)
    (run : Run.exec step (start disks origin) acts = some t) (a : Attempt) :
    (∀ progress image copied, t.Holds a progress image copied →
      ∀ place value, copied place = some value → value = image.disks place) ∧
      ∀ image, t.Captured a image → t.stage ≠ .running ∧ t.disks = image.disks := by
  have inv : Held t := Run.exec_guarded (fun _ _ _ inv exclusive next => held_step inv exclusive next)
    acts (held_start disks origin) exclusive run
  exact ⟨inv.copied a, fun _ => inv.stands⟩

def oneBundle : List (Act Unit Bool) :=
  oneAttempt ++ [.attempt 0 (.copyPlace ()), .attempt 0 .leave, .resume, .guest fun _ => true,
    .attempt 0 .describe, .attempt 0 (.update true)]

theorem one_bundle_holds_the_instant : ∃ t image copied,
    Run.exec step (start (fun _ => false) none) oneBundle = some t ∧
    t.Holds 0 .reported image copied ∧ copied () = some (image.disks ()) ∧
      t.disks () ≠ image.disks () := by
  have exclusive : Run.Meets step Exclusive (start (fun _ => false) none) oneBundle := by
    refine ⟨trivial, ⟨rfl, rfl, rfl, fun b out => ?_, nofun⟩, trivial, trivial, trivial, trivial, trivial,
      trivial, trivial, trivial, trivial, trivial, trivial, trivial, trivial⟩
    rcases outstanding_update (s := start (fun _ => false) none) rfl
      out with ⟨-, prepared⟩ | ⟨-, call, there, -⟩
    · exact nomatch prepared
    · exact nomatch there
  have same := (copies_at_the_capture _ none oneBundle _ exclusive rfl 0).1 .reported _ _ ⟨_, rfl, rfl⟩
  exact ⟨_, _, _, rfl, ⟨_, rfl, rfl⟩, congrArg some (same () _ rfl), by decide⟩

/-- One capture answers two attempts, and the SIGUSR2 of the first lets the guest run on while the
second still copies. -/
def sharedCapture : List (Act Unit Bool) :=
  [.attach 1, .start 0 0 0, .start 1 1 1, .attempt 0 .signal, .attempt 1 .signal, .look, .capture,
    .lower, .rename, .attempt 0 .see, .attempt 0 .copyState, .attempt 1 .see, .attempt 1 .copyState,
    .attempt 0 .leave, .resume, .guest fun _ => true, .attempt 1 (.copyPlace ()), .attempt 1 .leave,
    .attempt 1 .describe, .attempt 1 (.update true)]

theorem shared_capture_tears : ¬ ∀ (disks : Unit → Bool) (origin : Option Dir)
    (acts : List (Act Unit Bool)) (t : Sys Unit Bool),
    Run.exec step (start disks origin) acts = some t →
    ∀ a image copied, t.Holds a .reported image copied →
    ∀ place value, copied place = some value → value = image.disks place := by
  intro claim
  have torn := claim (fun _ => false) none sharedCapture _ rfl 1 _ _ ⟨_, rfl, rfl⟩ () true rfl
  exact nomatch torn

end Machinen.Checkpoint.Sys
