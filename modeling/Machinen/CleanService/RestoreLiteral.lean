import Machinen.CleanService.RestoreCommands
import Machinen.CleanService.Agreement

/-! What the shell of the guest makes of the values of a manifest: each that is quoted is one word, and
the port, which is not quoted, is as harmless as its text. -/
namespace Machinen.CleanService

open Schema Portable Shell

def fixed (text : Text) : List Token := (tokens text).getD []

def IsDecimal (text : Text) : Prop := text ≠ [] ∧ ∀ c ∈ text, c.isDigit = true

/-- A fixed text that leaves the shell between two words. -/
def Leads (front : Text) : Prop := (run {} front).map (·.1) = some {}

instance (front : Text) : Decidable (Leads front) := inferInstanceAs (Decidable (_ = _))

theorem Leads.run {front : Text} (leads : Leads front) : Shell.run {} front = some ({}, fixed front) := by
  cases ran : Shell.run {} front with
  | none => simp [Leads, ran] at leads
  | some result =>
    obtain ⟨last, ts⟩ := result
    obtain rfl : last = {} := by simpa [Leads, ran] using leads
    have all : tokens front = some (ts ++ []) := tokens_some ran rfl
    simp [fixed, all]

/-- The end of a command, that closes what is in front of it. -/
structure Trails (back : Text) : Prop where
  closes : ∃ c, back.head? = some c ∧ Closes c
  ends : (tokens back).isSome = true

theorem Trails.run {back : Text} (trails : Trails back) :
    ∃ last ts us, Shell.run {} back = some (last, ts) ∧ finish last = some us ∧ fixed back = ts ++ us := by
  obtain ⟨all, ends⟩ := Option.isSome_iff_exists.mp trails.ends
  rw [fixed, ends]
  rw [tokens] at ends
  cases ran : Shell.run {} back with
  | none => simp [ran] at ends
  | some result =>
    obtain ⟨last, ts⟩ := result
    cases done : finish last with
    | none => simp [ran, done] at ends
    | some us => exact ⟨last, ts, us, rfl, done, by simpa [ran, done] using ends.symm⟩

variable {mark : Text} {component : Json}

section Fixed

set_option maxRecDepth 2000

end Fixed

theorem IsDecimal.plain {port : Text} (decimal : IsDecimal port) : isPlain '/' port = true := by
  have digits := decimal.2
  clear decimal
  induction port with
  | nil => rfl
  | cons c port ih =>
    rw [List.forall_mem_cons] at digits
    have other : ∀ d : Char, d.isDigit = false → c ≠ d := by
      rintro d no rfl
      rw [digits.1] at no
      cases no
    simp [isPlain, isInert, isBlank, isOperatorStart, ih digits.2, other ' ' rfl, other '\t' rfl, other '\n' rfl,
      other '\'' rfl, other '"' rfl, other '\\' rfl, other '$' rfl, other '`' rfl, other '(' rfl, other ')' rfl,
      other '<' rfl, other '>' rfl, other '&' rfl, other '|' rfl, other ';' rfl]

end Machinen.CleanService
