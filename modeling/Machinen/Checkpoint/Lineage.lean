import Machinen.Checkpoint.Freshness

/-! Whether a bundle names the bundle that its deltas are relative to. The VMM counts from its last
capture, whoever asked for it and whatever became of it; a handle goes by the pointer it holds. -/
namespace Machinen.Checkpoint

variable {P V : Type}

/-- The capture that a parent stands for; `origin` is the bundle that the VM was restored from. -/
def Denotes (origin : Option Dir) (bundles : Dir → Option (Image P V)) : Option Dir → Nat → Prop
  | none, n => origin = none ∧ n = 0
  | some dir, n => ∃ image, bundles dir = some image ∧ image.serial = n

theorem Denotes.unique {origin : Option Dir} {bundles : Dir → Option (Image P V)} {parent : Option Dir}
    {m n : Nat} (first : Denotes origin bundles parent m) (second : Denotes origin bundles parent n) :
    m = n := by
  cases parent with
  | none => exact first.2.trans second.2.symm
  | some dir =>
    obtain ⟨image, there, rfl⟩ := first
    obtain ⟨other, there', rfl⟩ := second
    rw [Option.some.inj (there.symm.trans there')]

variable {image : Image P V} {call : Call P V}

theorem Denotes.put {origin : Option Dir} {bundles : Dir → Option (Image P V)} {parent : Option Dir}
    {n : Nat} (denotes : Denotes origin bundles parent n) {dir : Dir} (empty : bundles dir = none)
    (image : Image P V) : Denotes origin (Function.update bundles dir (some image)) parent n := by
  cases parent with
  | none => exact denotes
  | some other =>
    obtain ⟨found, there, serial⟩ := denotes
    refine ⟨found, ?_, serial⟩
    rw [Function.update_of_ne]
    · exact there
    · rintro rfl
      exact nomatch empty.symm.trans there

namespace Sys

def Owes (s : Sys P V) : Prop := s.requested ≠ [] ∧ s.stage ≠ .captured ∧ s.stage ≠ .refused

/-- An attempt starts when no other is under way and the VMM owes no capture, through a handle whose
pointer is the recorded one; and it fails only where the VMM has captured nothing since the
recorded checkpoint and owes no capture. -/
def Orderly (origin : Option Dir) (s : Sys P V) : Act P V → Prop
  | .start _ h _ =>
    (∀ b call, s.attempts b = some call → call.phase.ended = true) ∧ s.handles h = some s.registry ∧
      ¬ s.Owes
  | .attempt _ .fails | .attempt _ (.update false) =>
    Denotes origin s.bundles s.registry.parentDir s.captures ∧ ¬ s.Owes
  | _ => True

/-- The bundle is the one that the attempt copied, and its parent is the capture before. -/
def Linked (origin : Option Dir) (s : Sys P V) (call : Call P V) (image : Image P V) : Prop :=
  s.bundles call.snapDir = some image ∧ ∃ m, s.metas call.snapDir = some m ∧
    ∃ n, Denotes origin s.bundles m.parent n ∧ n + 1 = image.serial

structure Only (s : Sys P V) (a : Attempt) (call : Call P V) : Prop where
  there : s.attempts a = some call
  going : call.phase.ended = false
  others : ∀ b other, b ≠ a → s.attempts b = some other → other.phase.ended = true
  chain : call.chain = s.registry
  empty : call.phase.image? = none → s.bundles call.snapDir = none

structure Served (origin : Option Dir) (s : Sys P V) (phase : Phase P V) : Prop where
  signalled : phase ≠ .prepared
  recorded : ∃ n, Denotes origin s.bundles s.registry.parentDir n ∧ s.captures = n + 1
  owes : ¬ s.Owes
  onTheWay : ∀ image, s.OnTheWay image → image.serial = s.captures
  one : s.writer.pending = none ∨ s.file = none
  copied : ∀ image, phase.image? = some image → image.serial = s.captures ∧ s.writer.pending = none

inductive Situation (origin : Option Dir) (s : Sys P V) : Prop
  | quiet (nobody : ∀ b call, s.attempts b = some call → call.phase.ended = true)
    (recorded : Denotes origin s.bundles s.registry.parentDir s.captures) (owes : ¬ s.Owes)
    (pending : s.writer.pending = none)
  | unserved (a : Attempt) (call : Call P V) (only : s.Only a call)
    (phase : call.phase = .prepared ∧ ¬ s.Owes ∨ call.phase = .waiting)
    (recorded : Denotes origin s.bundles s.registry.parentDir s.captures)
    (pending : s.writer.pending = none) (file : s.file = none)
  | served (a : Attempt) (call : Call P V) (only : s.Only a call) (served : s.Served origin call.phase)

/-- What the loop writes itself is its next capture, and the signal for it is still to be answered. -/
structure Writes (s : Sys P V) (image : Image P V) : Prop where
  stage : s.stage = .storing
  asked : s.requested ≠ []
  serial : image.serial = s.captures + 1

theorem Writes.stays {s t : Sys P V} (stores : s.Writes image) (stage : t.stage = s.stage)
    (requested : t.requested = s.requested) (captures : t.captures = s.captures) : t.Writes image :=
  ⟨stage ▸ stores.stage, requested ▸ stores.asked, captures ▸ stores.serial⟩

structure Chained (origin : Option Dir) (s : Sys P V) : Prop where
  asked : s.stage = .preparing → s.requested ≠ []
  inline : ∀ image, s.inline = some image → s.Writes image
  sound : ∀ dir m, s.metas dir = some m → ∃ image, s.bundles dir = some image ∧
    ∃ n, Denotes origin s.bundles m.parent n ∧ n + 1 = image.serial
  kept : ∀ a call image, s.attempts a = some call → call.phase.image? = some image →
    s.bundles call.snapDir = some image
  described : ∀ a call progress image copied, s.attempts a = some call →
    call.phase = .holds progress image copied → progress = .described ∨ progress = .reported →
    ∃ m, s.metas call.snapDir = some m
  situation : Situation origin s

theorem Chained.linked {origin : Option Dir} {s : Sys P V} (inv : Chained origin s) {a : Attempt}
    {copied : P → Option V} (there : s.attempts a = some call)
    (reported : call.phase = .holds .reported image copied) : s.Linked origin call image := by
  have bundle := inv.kept a call image there (by rw [reported]; rfl)
  obtain ⟨m, noted⟩ := inv.described a call .reported image copied there reported (.inr rfl)
  obtain ⟨found, same, n, denotes, next⟩ := inv.sound call.snapDir m noted
  obtain rfl := Option.some.inj (bundle.symm.trans same)
  exact ⟨bundle, m, noted, n, denotes, next⟩

theorem chained_start (disks : P → V) (origin : Option Dir) : Chained origin (start disks origin) where
  asked := nofun
  inline _ := nofun
  sound _ _ := nofun
  kept _ _ _ := nofun
  described _ _ _ _ _ := nofun
  situation := by
    refine .quiet (fun _ _ => nofun) ?_ (fun owes => owes.1 rfl) rfl
    cases origin with
    | none => exact ⟨rfl, rfl⟩
    | some dir => exact ⟨_, if_pos rfl, rfl⟩

theorem Only.same {s : Sys P V} {a b : Attempt} {other : Call P V} (only : s.Only a call)
    (there : s.attempts b = some other) (going : other.phase.ended = false) : b = a ∧ other = call := by
  by_cases same : b = a
  · subst same
    exact ⟨rfl, Option.some.inj (there.symm.trans only.there)⟩
  · exact nomatch going.symm.trans (only.others b other same there)

theorem Phase.image_of_holds {phase : Phase P V} {progress : Progress} {copied : P → Option V}
    (holds : phase = .holds progress image copied) : phase.image? = some image := by
  rw [holds]
  rfl

theorem Chained.vmm {origin : Option Dir} {s t : Sys P V} (inv : Chained origin s)
    (attempts : t.attempts = s.attempts) (bundles : t.bundles = s.bundles) (metas : t.metas = s.metas)
    (asked : t.stage = .preparing → t.requested ≠ [])
    (inline : ∀ image, t.inline = some image → t.Writes image) (situation : Situation origin t) :
    Chained origin t where
  asked := asked
  inline := inline
  sound := by
    rw [bundles, metas]
    exact inv.sound
  kept := by
    rw [attempts, bundles]
    exact inv.kept
  described := by
    rw [attempts, metas]
    exact inv.described
  situation := situation

theorem Chained.not_inline {origin : Option Dir} {s : Sys P V} (inv : Chained origin s)
    (elsewhere : s.stage ≠ .storing) {Q : Prop} (stores : s.inline = some image) : Q :=
  absurd (inv.inline image stores).stage elsewhere

theorem Only.vmm {s t : Sys P V} {a : Attempt} (only : s.Only a call)
    (attempts : t.attempts = s.attempts) (bundles : t.bundles = s.bundles)
    (registry : t.registry = s.registry) : t.Only a call where
  there := attempts ▸ only.there
  going := only.going
  others := by
    rw [attempts]
    exact only.others
  chain := registry ▸ only.chain
  empty := bundles ▸ only.empty

theorem Situation.vmm {origin : Option Dir} {s t : Sys P V} (situation : Situation origin s)
    (attempts : t.attempts = s.attempts) (bundles : t.bundles = s.bundles)
    (registry : t.registry = s.registry) (captures : t.captures = s.captures) (owes : t.Owes → s.Owes)
    (pending : s.writer.pending = none → t.writer.pending = none)
    (file : s.writer.pending = none → t.file = s.file)
    (fewer : ∀ image, t.OnTheWay image → s.OnTheWay image)
    (one : s.writer.pending = none ∨ s.file = none → t.writer.pending = none ∨ t.file = none) :
    Situation origin t := by
  have recorded : ∀ n, Denotes origin s.bundles s.registry.parentDir n →
      Denotes origin t.bundles t.registry.parentDir n := by
    rw [bundles, registry]
    exact fun _ => id
  cases situation with
  | quiet nobody latest settled unwritten =>
    refine .quiet ?_ ?_ (settled ∘ owes) (pending unwritten)
    · rw [attempts]
      exact nobody
    · rw [captures]
      exact recorded _ latest
  | unserved a call only phase latest unwritten absent =>
    refine .unserved a call (only.vmm attempts bundles registry) ?_ ?_ (pending unwritten) ?_
    · exact phase.imp_left fun prepared => ⟨prepared.1, prepared.2 ∘ owes⟩
    · rw [captures]
      exact recorded _ latest
    · rw [file unwritten]
      exact absent
  | served a call only served =>
    refine .served a call (only.vmm attempts bundles registry) ⟨served.signalled, ?_, served.owes ∘ owes,
      ?_, one served.one, ?_⟩
    · rw [captures]
      exact served.recorded.imp fun n => And.imp_left (recorded n)
    · rw [captures]
      exact fun image way => served.onTheWay image (fewer image way)
    · rw [captures]
      exact fun image copied => (served.copied image copied).imp_right pending

theorem Situation.capture {origin : Option Dir} {s t : Sys P V} (situation : Situation origin s)
    (owed : s.Owes) (attempts : t.attempts = s.attempts) (bundles : t.bundles = s.bundles)
    (registry : t.registry = s.registry) (captures : t.captures = s.captures + 1)
    (stage : t.stage = .captured)
    (new : ∀ image, t.OnTheWay image → s.OnTheWay image ∨ image.serial = s.captures + 1)
    (one : s.writer.pending = none → s.file = none → t.writer.pending = none ∨ t.file = none) :
    Situation origin t := by
  cases situation with
  | quiet nobody latest settled unwritten => exact absurd owed settled
  | served a call only served => exact absurd owed served.owes
  | unserved a call only phase latest unwritten absent =>
    have waiting : call.phase = .waiting := by
      rcases phase with ⟨-, settled⟩ | waiting
      · exact absurd owed settled
      · exact waiting
    refine .served a call (only.vmm attempts bundles registry) ⟨waiting ▸ nofun,
      ⟨s.captures, ?_, captures⟩,
      fun owes => owes.2.1 stage, ?_, one unwritten absent, ?_⟩
    · rw [bundles, registry]
      exact latest
    · intro image way
      rw [captures]
      rcases new image way with writing | serial
      · rcases writing with writing | file
        · rw [writing] at unwritten
          exact nomatch unwritten
        · exact nomatch absent.symm.trans file
      · exact serial
    · intro image copied
      rw [waiting] at copied
      exact nomatch copied

theorem Situation.only {origin : Option Dir} {s : Sys P V} (situation : Situation origin s)
    {a : Attempt} (there : s.attempts a = some call) (going : call.phase.ended = false) :
    s.Only a call := by
  cases situation with
  | quiet nobody recorded owes pending => exact nomatch going.symm.trans (nobody a call there)
  | unserved b other only phase recorded pending file
  | served b other only served =>
    obtain ⟨rfl, rfl⟩ := only.same there going
    exact only

theorem Situation.served_of {origin : Option Dir} {s : Sys P V} (situation : Situation origin s)
    {a : Attempt} (there : s.attempts a = some call) (going : call.phase.ended = false)
    (got : s.file ≠ none ∧ call.phase.awaits = true ∨ call.phase.image? ≠ none) :
    s.Served origin call.phase := by
  cases situation with
  | quiet nobody recorded owes pending => exact nomatch going.symm.trans (nobody a call there)
  | served b other only served =>
    obtain ⟨rfl, rfl⟩ := only.same there going
    exact served
  | unserved b other only phase recorded pending file =>
    obtain ⟨rfl, rfl⟩ := only.same there going
    rcases got with ⟨present, -⟩ | holds
    · exact absurd file present
    · rcases phase with ⟨prepared, -⟩ | waiting
      · rw [prepared] at holds
        exact absurd rfl holds
      · rw [waiting] at holds
        exact absurd rfl holds

section

variable {origin : Option Dir} {s t : Sys P V} {a : Attempt} {c : Call P V} {p : Phase P V}
  (changed : t.attempts = Function.update s.attempts a (some { c with phase := p }))

include changed

theorem others_ended (only : s.Only a c) (b : Attempt) (other : Call P V) (away : b ≠ a)
    (there : t.attempts b = some other) : other.phase.ended = true := by
  rw [changed, Function.update_of_ne away] at there
  exact only.others b other away there

theorem Only.moved (only : s.Only a c) (going : p.ended = false) (registry : t.registry = s.registry)
    (empty : p.image? = none → t.bundles c.snapDir = none) : t.Only a { c with phase := p } where
  there := by rw [changed, Function.update_self]
  going := going
  others := others_ended changed only
  chain := only.chain.trans registry.symm
  empty := empty

theorem nobody_left (only : s.Only a c) (ended : p.ended = true) (b : Attempt) (other : Call P V)
    (there : t.attempts b = some other) : other.phase.ended = true := by
  by_cases same : b = a
  · subst same
    rw [changed, Function.update_self] at there
    cases there
    exact ended
  · exact others_ended changed only b other same there

theorem kept_moved (inv : Chained origin s) (bundles : t.bundles = s.bundles)
    (mine : ∀ image, p.image? = some image → s.bundles c.snapDir = some image) (b : Attempt)
    (other : Call P V) (image : Image P V) (there : t.attempts b = some other)
    (holds : other.phase.image? = some image) : t.bundles other.snapDir = some image := by
  rw [bundles]
  by_cases same : b = a
  · subst same
    rw [changed, Function.update_self] at there
    cases there
    exact mine image holds
  · rw [changed, Function.update_of_ne same] at there
    exact inv.kept b other image there holds

theorem described_moved (inv : Chained origin s)
    (more : ∀ dir m, s.metas dir = some m → ∃ m, t.metas dir = some m)
    (mine : ∀ progress image copied, p = .holds progress image copied →
      progress = .described ∨ progress = .reported → ∃ m, t.metas c.snapDir = some m)
    (b : Attempt) (other : Call P V) (progress : Progress) (image : Image P V) (copied : P → Option V)
    (there : t.attempts b = some other) (holds : other.phase = .holds progress image copied)
    (noted : progress = .described ∨ progress = .reported) : ∃ m, t.metas other.snapDir = some m := by
  by_cases same : b = a
  · subst same
    rw [changed, Function.update_self] at there
    cases there
    exact mine progress image copied holds noted
  · rw [changed, Function.update_of_ne same] at there
    obtain ⟨m, before⟩ := inv.described b other progress image copied there holds noted
    exact more other.snapDir m before

theorem Chained.attempt (inv : Chained origin s) (stage : t.stage = s.stage)
    (inline : t.inline = s.inline) (captures : t.captures = s.captures)
    (requested : s.requested ≠ [] → t.requested ≠ [])
    (bundles : t.bundles = s.bundles) (metas : t.metas = s.metas)
    (kept : ∀ image, p.image? = some image → c.phase.image? = some image)
    (noted : ∀ progress image copied, p = .holds progress image copied →
      progress = .described ∨ progress = .reported → ∃ m, s.metas c.snapDir = some m)
    (there : s.attempts a = some c) (situation : Situation origin t) : Chained origin t where
  asked := by
    rw [stage]
    exact requested ∘ inv.asked
  inline := by
    intro image stores
    obtain ⟨place, asked, serial⟩ := inv.inline image (inline ▸ stores)
    exact ⟨stage ▸ place, requested asked, captures ▸ serial⟩
  sound := by
    rw [bundles, metas]
    exact inv.sound
  kept := kept_moved changed inv bundles fun image holds =>
    inv.kept a c image there (kept image holds)
  described := by
    refine described_moved changed inv ?_ ?_
    · rw [metas]
      exact fun dir m noted => ⟨m, noted⟩
    · rw [metas]
      exact noted
  situation := situation

theorem Situation.goesOn (situation : Situation origin s) (there : s.attempts a = some c)
    (going : c.phase.ended = false) (holds : c.phase.image? ≠ none) (still : p.ended = false)
    (image : p.image? = c.phase.image?) (bundles : t.bundles = s.bundles)
    (registry : t.registry = s.registry) (captures : t.captures = s.captures) (stage : t.stage = s.stage)
    (requested : t.requested = s.requested) (writer : t.writer = s.writer) (file : t.file = s.file) :
    Situation origin t := by
  have served := situation.served_of there going (.inr holds)
  have only := situation.only there going
  refine .served a _ (only.moved changed still registry fun none_ => absurd (image ▸ none_) holds)
    ⟨?_, ?_, ?_, ?_, ?_, ?_⟩
  · rintro rfl
    exact holds image.symm
  · rw [bundles, registry, captures]
    exact served.recorded
  · unfold Owes
    rw [stage, requested]
    exact served.owes
  · unfold OnTheWay
    rw [writer, file, captures]
    exact served.onTheWay
  · rw [writer, file]
    exact served.one
  · rw [writer, captures]
    exact fun other got => served.copied other (image ▸ got)

theorem Situation.gives_up (situation : Situation origin s) (there : s.attempts a = some c)
    (going : c.phase.ended = false)
    (latest : Denotes origin s.bundles s.registry.parentDir s.captures) (settled : ¬ s.Owes)
    (ended : p.ended = true) (bundles : t.bundles = s.bundles) (registry : t.registry = s.registry)
    (captures : t.captures = s.captures) (stage : t.stage = s.stage)
    (requested : t.requested = s.requested) (writer : t.writer = s.writer) : Situation origin t := by
  have pending : s.writer.pending = none := by
    cases situation with
    | quiet nobody recorded owes unwritten => exact unwritten
    | unserved b other only p recorded unwritten file => exact unwritten
    | served b other only served =>
      -- the capture made for the attempt is not the recorded one
      obtain ⟨n, recorded, next⟩ := served.recorded
      have same := recorded.unique latest
      omega
  refine .quiet (nobody_left changed (situation.only there going) ended) ?_ ?_ ?_
  · rw [bundles, registry, captures]
    exact latest
  · unfold Owes
    rw [stage, requested]
    exact settled
  · rw [writer]
    exact pending

end

variable [DecidableEq P]

theorem chained_step {origin : Option Dir} {s t : Sys P V} {act : Act P V} (inv : Chained origin s)
    (orderly : s.Orderly origin act) (next : s.step act = some t) : Chained origin t := by
  have situation := inv.situation
  cases step_moved next with
  | guest disks running | attach h =>
    refine inv.vmm rfl rfl rfl inv.asked ?_
      (situation.vmm rfl rfl rfl rfl id id (fun _ => rfl) (fun _ => id) id)
    exact fun _ stores => (inv.inline _ stores).stays rfl rfl rfl
  | look running asked =>
    refine inv.vmm rfl rfl rfl (fun _ => asked) (fun _ => inv.not_inline (running ▸ nofun))
      (situation.vmm rfl rfl rfl rfl ?_ id (fun _ => rfl) (fun _ => id) id)
    exact fun _ => ⟨asked, running ▸ nofun, running ▸ nofun⟩
  | refuse preparing =>
    exact inv.vmm rfl rfl rfl nofun (fun _ => inv.not_inline (preparing ▸ nofun))
      (situation.vmm rfl rfl rfl rfl (fun owes => absurd rfl owes.2.2) id (fun _ => rfl)
        (fun _ => id) id)
  | capture preparing free =>
    have owed : s.Owes := ⟨inv.asked preparing, preparing ▸ nofun, preparing ▸ nofun⟩
    refine inv.vmm rfl rfl rfl nofun (fun _ => inv.not_inline (preparing ▸ nofun))
      (situation.capture owed rfl rfl rfl rfl rfl ?_ fun _ absent => .inr absent)
    rintro image (writing | file)
    · cases writing
      exact .inr rfl
    · exact .inl (.inr file)
  | captureInline preparing free =>
    refine inv.vmm rfl rfl rfl nofun ?_ (situation.vmm rfl rfl rfl rfl ?_ id (fun _ => rfl)
      (fun _ => id) id)
    · rintro image ⟨⟩
      exact ⟨rfl, inv.asked preparing, rfl⟩
    · exact fun owes => ⟨owes.1, preparing ▸ nofun, preparing ▸ nofun⟩
  | renameInline image storing inline =>
    have stores := inv.inline image inline
    have owed : s.Owes := ⟨stores.asked, storing ▸ nofun, storing ▸ nofun⟩
    refine inv.vmm rfl rfl rfl nofun nofun (situation.capture owed rfl rfl rfl rfl rfl ?_
      fun none_ _ => .inl none_)
    rintro other (writing | file)
    · exact .inl (.inl writing)
    · cases file
      exact .inr stores.serial
  | inlineFails storing =>
    exact inv.vmm rfl rfl rfl nofun nofun (situation.vmm rfl rfl rfl rfl
      (fun owes => absurd rfl owes.2.2) id (fun _ => rfl) (fun _ => id) id)
  | lowerCaptured here | lowerRefused here =>
    exact inv.vmm rfl rfl rfl nofun (fun _ => inv.not_inline (here ▸ nofun))
      (situation.vmm rfl rfl rfl rfl (fun owes => absurd rfl owes.1) id (fun _ => rfl) (fun _ => id) id)
  | resume waiting raised | resumeTimeout waiting down =>
    refine inv.vmm rfl rfl rfl nofun (fun _ => inv.not_inline (waiting ▸ nofun))
      (situation.vmm rfl rfl rfl rfl ?_ id (fun _ => rfl) (fun _ => id) id)
    exact fun owes => ⟨owes.1, waiting ▸ nofun, waiting ▸ nofun⟩
  | rename image writing =>
    refine inv.vmm rfl rfl rfl inv.asked (fun _ stores => (inv.inline _ stores).stays rfl rfl rfl)
      (situation.vmm rfl rfl rfl rfl id (fun _ => rfl) ?_ ?_ fun _ => .inl rfl)
    · intro none_
      rw [writing] at none_
      exact nomatch none_
    · rintro other (writing' | file)
      · exact nomatch writing'
      · cases file
        exact .inl writing
  | writeFails image writing | finish finishing =>
    refine inv.vmm rfl rfl rfl inv.asked (fun _ stores => (inv.inline _ stores).stays rfl rfl rfl)
      (situation.vmm rfl rfl rfl rfl id (fun _ => rfl) (fun _ => rfl) ?_ fun _ => .inl rfl)
    rintro other (writing' | file)
    · exact nomatch writing'
    · exact .inr file
  | start a h dir chain fresh pointer empty =>
    obtain ⟨nobody, current, settled⟩ := orderly
    obtain rfl := Option.some.inj (pointer.symm.trans current)
    have away : ∀ b other, Function.update s.attempts a (some ⟨h, dir, s.registry, .prepared⟩) b =
      some other →
        b = a ∧ other = ⟨h, dir, s.registry, .prepared⟩ ∨ s.attempts b = some other := by
      intro b other there
      by_cases same : b = a
      · subst same
        rw [Function.update_self] at there
        exact .inl ⟨rfl, (Option.some.inj there).symm⟩
      · rw [Function.update_of_ne same] at there
        exact .inr there
    refine ⟨inv.asked, fun _ stores => (inv.inline _ stores).stays rfl rfl rfl, inv.sound, ?_, ?_, ?_⟩
    · intro b other image there holds
      rcases away b other there with ⟨-, rfl⟩ | before
      · exact nomatch holds
      · exact inv.kept b other image before holds
    · intro b other progress image copied there holds noted
      rcases away b other there with ⟨-, rfl⟩ | before
      · exact nomatch holds
      · exact inv.described b other progress image copied before holds noted
    · cases situation with
      | unserved b other only phase recorded pending file
      | served b other only served => exact nomatch only.going.symm.trans (nobody b other only.there)
      | quiet _ recorded _ pending =>
        refine .unserved a ⟨h, dir, s.registry, .prepared⟩ ⟨Function.update_self .., rfl, ?_, rfl,
          fun _ => empty⟩ (.inl ⟨rfl, settled⟩) recorded pending rfl
        intro b other different there
        rcases away b other there with ⟨same, -⟩ | before
        · exact absurd same different
        · exact nobody b other before
  | signal a call there phase =>
    have going : call.phase.ended = false := by rw [phase]; rfl
    have only := situation.only there going
    refine inv.attempt (a := a) (c := call) (p := .waiting) rfl rfl rfl rfl
      (fun _ => List.cons_ne_nil _ _) rfl rfl nofun nofun there ?_
    cases situation with
    | quiet nobody recorded owes pending => exact nomatch going.symm.trans (nobody a call there)
    | served b other only' served =>
      obtain ⟨-, rfl⟩ := only'.same there going
      exact absurd phase served.signalled
    | unserved b other only' _ recorded pending file =>
      refine .unserved a _ (only.moved (p := .waiting) rfl rfl rfl fun _ => only.empty ?_) (.inr rfl)
        recorded pending file
      rw [phase]
      rfl
  | see a call image there phase file =>
    have going : call.phase.ended = false := by rw [phase]; rfl
    have only := situation.only there going
    have served := situation.served_of there going (.inl ⟨file ▸ nofun, by rw [phase]; rfl⟩)
    refine inv.attempt (a := a) (c := call) (p := .seen) rfl rfl rfl rfl id rfl rfl nofun nofun there ?_
    refine .served a _ (only.moved (p := .seen) rfl rfl rfl fun _ => only.empty ?_)
      ⟨nofun, served.recorded, served.owes, served.onTheWay, served.one, nofun⟩
    rw [phase]
    rfl
  | copyState a call image there phase file =>
    have going : call.phase.ended = false := by rw [phase]; rfl
    have only := situation.only there going
    have served := situation.served_of there going (.inl ⟨file ▸ nofun, by rw [phase]; rfl⟩)
    have empty : s.bundles call.snapDir = none := only.empty (by rw [phase]; rfl)
    have unwritten : s.writer.pending = none := by
      rcases served.one with none_ | absent
      · exact none_
      · exact nomatch absent.symm.trans file
    refine ⟨inv.asked, fun _ stores => (inv.inline _ stores).stays rfl rfl rfl, ?_, ?_, ?_, ?_⟩
    · intro dir m noted
      obtain ⟨found, bundle, n, denotes, serial⟩ := inv.sound dir m noted
      refine ⟨found, ?_, n, denotes.put empty image, serial⟩
      show Function.update s.bundles call.snapDir (some image) dir = some found
      rw [Function.update_of_ne]
      · exact bundle
      · rintro rfl
        exact nomatch empty.symm.trans bundle
    · intro b other found there' holds
      show Function.update s.bundles call.snapDir (some image) other.snapDir = some found
      have there' : Function.update s.attempts a _ b = some other := there'
      by_cases same : b = a
      · subst same
        rw [Function.update_self] at there'
        cases there'
        rw [Function.update_self]
        exact holds
      · rw [Function.update_of_ne same] at there'
        have bundle := inv.kept b other found there' holds
        rw [Function.update_of_ne]
        · exact bundle
        · intro at_
          rw [at_, empty] at bundle
          exact nomatch bundle
    · refine described_moved (s := s) (a := a) (c := call)
        (p := .holds .copying image fun _ => none) rfl inv (fun _ m noted => ⟨m, noted⟩) ?_
      rintro progress other copied ⟨⟩ (noted | noted)
      · exact nomatch noted
      · exact nomatch noted
    · refine .served a _ (only.moved (p := .holds .copying image fun _ => none) rfl rfl rfl nofun)
        ⟨nofun, ?_, served.owes, served.onTheWay, served.one, ?_⟩
      · exact served.recorded.imp fun n => And.imp_left fun denotes => denotes.put empty image
      · rintro other ⟨⟩
        exact ⟨served.onTheWay image (.inr file), unwritten⟩
  | copyPlace a call place image copied there phase =>
    refine inv.attempt (a := a) (c := call)
      (p := .holds .copying image (Function.update copied place (some (s.disks place)))) rfl rfl rfl rfl
        id rfl rfl
      ?_ ?_ there ?_
    · rintro other ⟨⟩
      exact Phase.image_of_holds phase
    · rintro progress other found ⟨⟩ (noted | noted)
      · exact nomatch noted
      · exact nomatch noted
    · exact situation.goesOn (a := a) (c := call) rfl there (by rw [phase]; rfl)
        (by rw [phase]; exact nofun) rfl (by rw [phase]; rfl) rfl rfl rfl rfl rfl rfl rfl
  | leave a call image copied there phase =>
    refine inv.attempt (a := a) (c := call) (p := .holds .resumed image copied) rfl rfl rfl rfl id rfl rfl
      ?_ ?_ there ?_
    · rintro other ⟨⟩
      exact Phase.image_of_holds phase
    · rintro progress other found ⟨⟩ (noted | noted)
      · exact nomatch noted
      · exact nomatch noted
    · exact situation.goesOn (a := a) (c := call) rfl there (by rw [phase]; rfl)
        (by rw [phase]; exact nofun) rfl (by rw [phase]; rfl) rfl rfl rfl rfl rfl rfl rfl
  | describe a call image copied there phase =>
    have going : call.phase.ended = false := by rw [phase]; rfl
    have only := situation.only there going
    have served := situation.served_of there going (.inr (by rw [phase]; exact nofun))
    have mine := Phase.image_of_holds phase
    have bundle := inv.kept a call image there mine
    refine ⟨inv.asked, fun _ stores => (inv.inline _ stores).stays rfl rfl rfl, ?_, ?_, ?_, ?_⟩
    · intro dir m noted
      have noted : Function.update s.metas call.snapDir (some (checkpoint call)) dir = some m := noted
      by_cases here : dir = call.snapDir
      · subst here
        rw [Function.update_self] at noted
        cases noted
        obtain ⟨n, denotes, serial⟩ := served.recorded
        refine ⟨image, bundle, n, ?_, serial.symm.trans (served.copied image mine).1.symm⟩
        show Denotes origin s.bundles call.chain.parentDir n
        rw [only.chain]
        exact denotes
      · rw [Function.update_of_ne here] at noted
        exact inv.sound dir m noted
    · refine kept_moved (s := s) (a := a) (c := call) (p := .holds .described image copied) rfl
        inv rfl ?_
      rintro other ⟨⟩
      exact bundle
    · refine described_moved (s := s) (a := a) (c := call) (p := .holds .described image copied)
        rfl inv ?_ ?_
      · intro dir m before
        by_cases here : dir = call.snapDir
        · subst here
          exact ⟨_, Function.update_self ..⟩
        · exact ⟨m, (Function.update_of_ne here ..).trans before⟩
      · exact fun _ _ _ _ _ => ⟨_, Function.update_self ..⟩
    · exact situation.goesOn (a := a) (c := call) (p := .holds .described image copied) rfl there
        going
        (by rw [phase]; exact nofun) rfl mine.symm rfl rfl rfl rfl rfl rfl rfl
  | report a call image copied there phase =>
    have going : call.phase.ended = false := by rw [phase]; rfl
    have only := situation.only there going
    have served := situation.served_of there going (.inr (by rw [phase]; exact nofun))
    have mine := Phase.image_of_holds phase
    obtain ⟨serial, unwritten⟩ := served.copied image mine
    refine inv.attempt (a := a) (c := call) (p := .holds .reported image copied) rfl rfl rfl rfl id rfl
      rfl ?_ ?_ there ?_
    · rintro other ⟨⟩
      exact mine
    · exact fun _ _ _ _ _ => inv.described a call .described image copied there phase (.inl rfl)
    · exact .quiet (nobody_left (s := s) (c := call) (p := .holds .reported image copied)
        rfl only rfl) ⟨image, inv.kept a call image there mine, serial⟩ served.owes unwritten
  | unrecorded a call image copied there phase =>
    refine inv.attempt (a := a) (c := call) (p := .failed) rfl rfl rfl rfl id rfl rfl nofun nofun there ?_
    exact situation.gives_up (a := a) (c := call) (p := .failed) rfl there (by rw [phase]; rfl)
      orderly.1 orderly.2 rfl rfl rfl rfl rfl rfl rfl
  | fails a call there going =>
    refine inv.attempt (a := a) (c := call) (p := .failed) rfl rfl rfl rfl id rfl rfl nofun nofun there ?_
    exact situation.gives_up (a := a) (c := call) (p := .failed) rfl there going
      orderly.1 orderly.2 rfl rfl rfl rfl rfl rfl rfl

/-- In a run of orderly attempts every reported bundle names the bundle of the capture before. -/
theorem bundles_linked (disks : P → V) (origin : Option Dir) (acts : List (Act P V)) (t : Sys P V)
    (orderly : Run.Meets step (Orderly origin) (start disks origin) acts)
    (run : Run.exec step (start disks origin) acts = some t) (a : Attempt) (call : Call P V)
    (image : Image P V) (copied : P → Option V) (there : t.attempts a = some call)
    (reported : call.phase = .holds .reported image copied) : t.Linked origin call image :=
  (Run.exec_guarded (fun _ _ _ inv orderly next => chained_step inv orderly next) acts
    (chained_start disks origin) orderly run).linked there reported

/-- Two checkpoints through one handle, the second relative to the first. -/
def twoBundles : List (Act Unit Bool) :=
  [.start 0 0 0, .attempt 0 .signal, .look, .capture, .lower, .rename, .attempt 0 .see,
    .attempt 0 .copyState, .attempt 0 .leave, .attempt 0 .describe, .attempt 0 (.update true), .resume,
    .finish, .start 1 0 1, .attempt 1 .signal, .look, .captureInline, .renameInline, .attempt 1 .see,
    .attempt 1 .copyState, .attempt 1 .leave, .attempt 1 .describe, .attempt 1 (.update true)]

theorem second_bundle_is_linked : ∃ t call image,
    Run.exec step (start (fun _ => false) none) twoBundles = some t ∧
    t.attempts 1 = some call ∧ image.serial = 2 ∧ t.Linked none call image := by
  have orderly : Run.Meets step (Orderly none) (start (fun _ => false) none) twoBundles := by
    refine ⟨⟨fun _ _ => nofun, rfl, fun owes => owes.1 rfl⟩, trivial, trivial, trivial, trivial, trivial,
      trivial, trivial, trivial, trivial, trivial, trivial, trivial, ⟨?_, rfl, fun owes => owes.1 rfl⟩,
      trivial, trivial, trivial, trivial, trivial, trivial, trivial, trivial, trivial, trivial⟩
    intro b call there
    by_cases first : b = 0
    · subst first
      cases there
      rfl
    · simp only [moved, Function.update_of_ne first] at there
      exact nomatch there
  exact ⟨_, _, _, rfl, rfl, rfl, bundles_linked _ none twoBundles _ orderly rfl 1 _ _ _ rfl rfl⟩

/-- The handle that was attached before the first checkpoint still has no parent when it makes the
second one. -/
def staleHandle : List (Act Unit Bool) :=
  [.attach 1, .start 0 0 0, .attempt 0 .signal, .look, .capture, .lower, .rename, .attempt 0 .see,
    .attempt 0 .copyState, .attempt 0 .leave, .attempt 0 .describe, .attempt 0 (.update true), .resume,
    .finish, .start 1 1 1, .attempt 1 .signal, .look, .capture, .lower, .rename, .attempt 1 .see,
    .attempt 1 .copyState, .attempt 1 .leave, .attempt 1 .describe, .attempt 1 (.update true)]

theorem stale_handle_is_unlinked : ¬ ∀ (disks : Unit → Bool) (origin : Option Dir)
    (acts : List (Act Unit Bool)) (t : Sys Unit Bool),
    Run.exec step (start disks origin) acts = some t →
    ∀ a call image copied, t.attempts a = some call → call.phase = .holds .reported image copied →
    t.Linked origin call image := by
  intro claim
  obtain ⟨-, m, noted, n, denotes, next⟩ := claim (fun _ => false) none staleHandle _ rfl 1 _ _ _ rfl rfl
  cases noted
  -- no parent stands for the boot, and this is the second capture
  obtain ⟨-, rfl⟩ := denotes
  exact absurd next (by decide)

end Sys

end Machinen.Checkpoint
