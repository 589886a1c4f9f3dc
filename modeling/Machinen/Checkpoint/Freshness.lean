import Machinen.Checkpoint.Handshake

/-! Whether the state file that an attempt copies was captured for that attempt. The path is
cleared once, before the signal, and what the VMM still owes then lands on it later. -/
namespace Machinen.Checkpoint

variable {P V : Type}

def Phase.awaits : Phase P V → Bool
  | .waiting | .seen => true
  | _ => false

def Phase.image? : Phase P V → Option (Image P V)
  | .holds _ image _ => some image
  | _ => none

namespace Sys

def Awaits (s : Sys P V) (a : Attempt) : Prop :=
  ∃ call, s.attempts a = some call ∧ call.phase.awaits = true

def OnTheWay (s : Sys P V) (image : Image P V) : Prop :=
  s.writer = .writing image ∨ s.file = some image

/-- What the VMM has captured and nobody has copied yet: the loop's own write, the writer's, or the
file at the path. -/
def Owed (s : Sys P V) (image : Image P V) : Prop :=
  s.inline = some image ∨ s.OnTheWay image

def Consumed (s : Sys P V) (a : Attempt) (image : Image P V) : Prop :=
  ∃ call, s.attempts a = some call ∧ call.phase.image? = some image

/-- An attempt signals when nothing is at the path or on its way there, by the writer or by the
loop itself, and each other attempt that waits for a file has a signal that the VMM has yet to
take. -/
def Settled (s : Sys P V) : Act P V → Prop
  | .attempt _ .signal =>
    s.file = none ∧ s.writer.pending = none ∧ s.inline = none ∧ ∀ b, s.Awaits b → b ∈ s.requested
  | _ => True

structure Fresh (s : Sys P V) : Prop where
  asked : s.stage = .preparing → s.requested ≠ []
  heard : ∀ a, s.Awaits a → s.stage ≠ .captured → s.stage ≠ .refused → s.requested ≠ [] →
    a ∈ s.requested
  owed : ∀ a image, s.Awaits a → s.Owed image → a ∈ image.answers
  consumed : ∀ a image, s.Consumed a image → a ∈ image.answers

section

variable {s t : Sys P V} {a : Attempt} {call : Call P V}
  (changed : t.attempts = Function.update s.attempts a (some call))

include changed

theorem call_update {Q : Call P V → Prop} {b : Attempt} (here : ∃ found, t.attempts b = some found ∧ Q found) :
    b = a ∧ Q call ∨ b ≠ a ∧ ∃ found, s.attempts b = some found ∧ Q found := by
  obtain ⟨found, there, holds⟩ := here
  rw [changed] at there
  by_cases same : b = a
  · subst same
    rw [Function.update_self] at there
    cases there
    exact .inl ⟨rfl, holds⟩
  · rw [Function.update_of_ne same] at there
    exact .inr ⟨same, found, there, holds⟩

theorem awaits_update {b : Attempt} (waits : t.Awaits b) :
    b = a ∧ call.phase.awaits = true ∨ s.Awaits b :=
  (call_update changed waits).imp_right And.right

theorem consumed_update {b : Attempt} {image : Image P V} (consumed : t.Consumed b image) :
    b = a ∧ call.phase.image? = some image ∨ s.Consumed b image :=
  (call_update changed consumed).imp_right And.right

theorem Fresh.attempt (inv : Fresh s) (stage : t.stage = s.stage)
    (requested : t.requested = s.requested) (fewer : ∀ image, t.Owed image → s.Owed image)
    (awaits : call.phase.awaits = true → s.Awaits a)
    (consumed : ∀ image, call.phase.image? = some image → a ∈ image.answers) : Fresh t := by
  have waited : ∀ b, t.Awaits b → s.Awaits b := by
    intro b waits
    rcases awaits_update changed waits with ⟨rfl, phase⟩ | before
    · exact awaits phase
    · exact before
  constructor
  · rw [stage, requested]
    exact inv.asked
  · rw [stage, requested]
    exact fun b waits => inv.heard b (waited b waits)
  · exact fun b image waits way => inv.owed b image (waited b waits) (fewer image way)
  · intro b image holds
    rcases consumed_update changed holds with ⟨rfl, phase⟩ | before
    · exact consumed image phase
    · exact inv.consumed b image before

end

theorem Fresh.vmm {s t : Sys P V} (inv : Fresh s) (attempts : t.attempts = s.attempts)
    (asked : t.stage = .preparing → t.requested ≠ [])
    (heard : t.stage ≠ .captured → t.stage ≠ .refused → t.requested ≠ [] →
      t.requested = s.requested ∧ s.stage ≠ .captured ∧ s.stage ≠ .refused)
    (owed : ∀ image, t.Owed image → s.Owed image ∨ ∀ a, s.Awaits a → a ∈ image.answers) :
    Fresh t := by
  have waited : ∀ b, t.Awaits b → s.Awaits b := by
    rintro b ⟨call, there, phase⟩
    exact ⟨call, attempts ▸ there, phase⟩
  constructor
  · exact asked
  · intro a waits captured refused some_
    obtain ⟨same, captured', refused'⟩ := heard captured refused some_
    rw [same]
    exact inv.heard a (waited a waits) captured' refused' (same ▸ some_)
  · intro a image waits way
    rcases owed image way with before | answers
    · exact inv.owed a image (waited a waits) before
    · exact answers a (waited a waits)
  · rintro a image ⟨call, there, holds⟩
    exact inv.consumed a image ⟨call, attempts ▸ there, holds⟩

theorem Fresh.answers {s : Sys P V} (inv : Fresh s) (preparing : s.stage = .preparing) (a : Attempt)
    (waits : s.Awaits a) : a ∈ s.image.answers :=
  inv.heard a waits (preparing ▸ nofun) (preparing ▸ nofun) (inv.asked preparing)

variable [DecidableEq P]

def oneAttempt : List (Act Unit Bool) :=
  [.start 0 0 0, .attempt 0 .signal, .look, .capture, .lower, .rename, .attempt 0 .see,
    .attempt 0 .copyState]

end Sys

end Machinen.Checkpoint
