import Mathlib

/-! Codes that are read from the front: where the code of a value ends is known from the code itself. -/
namespace Machinen

def PrefixCode {α β : Type*} (ok : α → Prop) (code : α → List β) : Prop :=
  ∀ a b, ok a → ok b → ∀ x y, code a ++ x = code b ++ y → a = b ∧ x = y

namespace PrefixCode

variable {α β : Type*} {ok : α → Prop} {code : α → List β}

theorem delimited (stop : β) : PrefixCode (fun field : List β => stop ∉ field) fun field => field ++ [stop] := by
  intro a b free apart x y same
  rw [List.append_assoc, List.append_assoc] at same
  induction a generalizing b with
  | nil =>
    cases b with
    | nil => exact ⟨rfl, (List.cons.inj same).2⟩
    | cons c b => exact absurd ((List.cons.inj same).1 ▸ List.mem_cons_self) apart
  | cons c a ih =>
    cases b with
    | nil => exact absurd ((List.cons.inj same).1 ▸ List.mem_cons_self) free
    | cons d b =>
      rw [List.mem_cons, not_or] at free apart
      obtain ⟨rfl, tail⟩ := List.cons.inj same
      obtain ⟨rfl, rest⟩ := ih b free.2 apart.2 tail
      exact ⟨rfl, rest⟩

theorem each (one : PrefixCode ok code) {as bs : List α} (count : as.length = bs.length) (first : ∀ a ∈ as, ok a)
    (second : ∀ b ∈ bs, ok b) {x y : List β} (same : as.flatMap code ++ x = bs.flatMap code ++ y) :
    as = bs ∧ x = y := by
  induction as generalizing bs with
  | nil =>
    obtain rfl := List.length_eq_zero_iff.mp count.symm
    exact ⟨rfl, same⟩
  | cons a as ih =>
    cases bs with
    | nil => cases count
    | cons b bs =>
      rw [List.forall_mem_cons] at first second
      rw [List.flatMap_cons, List.flatMap_cons, List.append_assoc, List.append_assoc] at same
      obtain ⟨rfl, more⟩ := one a b first.1 second.1 _ _ same
      obtain ⟨rfl, rest⟩ := ih (Nat.succ.inj count) first.2 second.2 more
      exact ⟨rfl, rest⟩

theorem all (one : PrefixCode ok code) (some_ : ∀ a, ok a → code a ≠ []) {as bs : List α} (first : ∀ a ∈ as, ok a)
    (second : ∀ b ∈ bs, ok b) (same : as.flatMap code = bs.flatMap code) : as = bs := by
  induction as generalizing bs with
  | nil =>
    cases bs with
    | nil => rfl
    | cons b bs => exact absurd (List.append_eq_nil_iff.mp same.symm).1 (some_ b (second b List.mem_cons_self))
  | cons a as ih =>
    cases bs with
    | nil => exact absurd (List.append_eq_nil_iff.mp same).1 (some_ a (first a List.mem_cons_self))
    | cons b bs =>
      rw [List.forall_mem_cons] at first second
      obtain ⟨rfl, more⟩ := one a b first.1 second.1 _ _ same
      rw [ih first.2 second.2 more]

end PrefixCode
end Machinen
