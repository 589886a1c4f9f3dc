import Machinen.Lib.Bytes

/-! A byte string taken apart from the front, piece by piece, until nothing is left of it. -/
namespace Machinen.Pieces

variable {A : Type}

/-- Takes a piece from the front of a string, and tells what is left. -/
abbrev Taker (A : Type) := Bytes → Option (A × Bytes)

def within (take : Taker A) : Nat → Bytes → Option (List A)
  | _, [] => some []
  | 0, _ :: _ => none
  | turns + 1, b :: bs => (take (b :: bs)).bind fun (a, rest) => (within take turns rest).map (a :: ·)

def all (take : Taker A) (bs : Bytes) : Option (List A) := within take bs.length bs

/-- A piece is a part of the string, and is not empty. -/
def Cuts (take : Taker A) (bytes : A → Bytes) : Prop :=
  ∀ ⦃bs a rest⦄, take bs = some (a, rest) → bs = bytes a ++ rest ∧ bytes a ≠ []

variable {take : Taker A} {bytes : A → Bytes}

theorem within_nil (turns : Nat) : within take turns [] = some [] := by
  cases turns <;> rfl

variable {bs : Bytes}

theorem within_succ {turns : Nat} (some_ : bs ≠ []) : within take (turns + 1) bs =
    (take bs).bind fun (a, rest) => (within take turns rest).map (a :: ·) := by
  obtain ⟨b, bs, rfl⟩ := List.exists_cons_of_ne_nil some_
  rfl

theorem Cuts.shorter (cuts : Cuts take bytes) {rest : Bytes} {a : A} (taken : take bs = some (a, rest)) :
    rest.length < bs.length := by
  obtain ⟨rfl, some_⟩ := cuts taken
  have positive := List.length_pos_iff.mpr some_
  rw [List.length_append]
  omega

theorem Cuts.within_enough (cuts : Cuts take bytes) {turns : Nat}
    (enough : bs.length ≤ turns) : within take turns bs = all take bs := by
  unfold all
  generalize length : bs.length = n
  rw [length] at enough
  induction n using Nat.strongRecOn generalizing turns bs with
  | ind n ih =>
    by_cases none_ : bs = []
    · rw [none_, within_nil, within_nil]
    have positive := List.length_pos_iff.mpr none_
    obtain ⟨k, rfl⟩ : ∃ k, n = k + 1 := ⟨n - 1, by omega⟩
    obtain ⟨turns, rfl⟩ : ∃ t, turns = t + 1 := ⟨turns - 1, by omega⟩
    rw [within_succ none_, within_succ none_]
    cases taken : take bs with
    | none => rfl
    | some first =>
      obtain ⟨a, rest⟩ := first
      have shorter := cuts.shorter taken
      dsimp only [Option.bind_some]
      rw [ih rest.length (by omega) (by omega) rfl,
        ← ih rest.length (by omega) (show rest.length ≤ k by omega) rfl]

theorem Cuts.all_cons (cuts : Cuts take bytes) (some_ : bs ≠ []) : all take bs =
    (take bs).bind fun (a, rest) => (all take rest).map (a :: ·) := by
  obtain ⟨k, length⟩ : ∃ k, bs.length = k + 1 :=
    ⟨bs.length - 1, by have := List.length_pos_iff.mpr some_; omega⟩
  unfold all
  rw [length, within_succ some_]
  cases taken : take bs with
  | none => rfl
  | some first =>
    obtain ⟨a, rest⟩ := first
    have shorter := cuts.shorter taken
    dsimp only [Option.bind_some]
    rw [cuts.within_enough (by omega)]
    rfl

theorem Cuts.all_cons_some (cuts : Cuts take bytes) {a : A} {as : List A}
    (read : all take bs = some (a :: as)) : ∃ rest, take bs = some (a, rest) ∧ all take rest = some as := by
  have some_ : bs ≠ [] := by
    rintro rfl
    cases read
  rw [cuts.all_cons some_] at read
  obtain ⟨⟨a', rest⟩, taken, read⟩ := Option.bind_eq_some_iff.mp read
  obtain ⟨as', inner, same⟩ := Option.map_eq_some_iff.mp read
  cases same
  exact ⟨rest, taken, inner⟩

theorem Cuts.all_bytes (cuts : Cuts take bytes) {as : List A} (read : all take bs = some as) :
    as.flatMap bytes = bs := by
  induction as generalizing bs with
  | nil =>
    by_cases none_ : bs = []
    · rw [none_]
      rfl
    · rw [cuts.all_cons none_] at read
      obtain ⟨_, -, read⟩ := Option.bind_eq_some_iff.mp read
      obtain ⟨_, -, impossible⟩ := Option.map_eq_some_iff.mp read
      cases impossible
  | cons a as ih =>
    obtain ⟨rest, taken, inner⟩ := cuts.all_cons_some read
    rw [List.flatMap_cons, ih inner]
    exact (cuts taken).1.symm

theorem Cuts.all_mem (cuts : Cuts take bytes) {as : List A} (read : all take bs = some as)
    {a : A} (listed : a ∈ as) : ∃ bs rest, take bs = some (a, rest) := by
  induction as generalizing bs with
  | nil => exact nomatch listed
  | cons a' as ih =>
    obtain ⟨rest, taken, inner⟩ := cuts.all_cons_some read
    rcases List.mem_cons.mp listed with rfl | later
    · exact ⟨bs, rest, taken⟩
    · exact ih inner later

theorem Cuts.all_back (cuts : Cuts take bytes) {front back : List A}
    (read : all take bs = some (front ++ back)) : all take (back.flatMap bytes) = some back := by
  induction front generalizing bs with
  | nil => rwa [← cuts.all_bytes read] at read
  | cons a front ih =>
    obtain ⟨rest, -, inner⟩ := cuts.all_cons_some read
    exact ih inner

end Machinen.Pieces
