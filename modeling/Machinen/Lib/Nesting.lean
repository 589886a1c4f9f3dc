import Mathlib

/-! Words with brackets: which of them are balanced, and where a word stands that has brackets open.
The alphabet is arbitrary; `kind` tells which letters open, which close, and which do neither. -/
namespace Machinen.Nesting

inductive Kind where
  | opens | closes | flat
  deriving DecidableEq, Repr

variable {T : Type} {kind : T → Kind}

inductive Balanced (kind : T → Kind) : List T → Prop
  | nil : Balanced kind []
  | flat {t : T} {ts : List T} : kind t = .flat → Balanced kind ts → Balanced kind (t :: ts)
  | nest {o c : T} {inner ts : List T} : kind o = .opens → Balanced kind inner → kind c = .closes →
      Balanced kind ts → Balanced kind (o :: (inner ++ c :: ts))

/-- How many brackets are open behind a word, if none closes that is not open. -/
def climb (kind : T → Kind) : Nat → List T → Option Nat
  | d, [] => some d
  | d, t :: ts =>
    match kind t with
    | .flat => climb kind d ts
    | .opens => climb kind (d + 1) ts
    | .closes => if d = 0 then none else climb kind (d - 1) ts

/-- A word with `d` open brackets: balanced words, and between them the brackets. -/
inductive Reaches (kind : T → Kind) : Nat → List T → Prop
  | level {ts : List T} : Balanced kind ts → Reaches kind 0 ts
  | deeper {d : Nat} {ts us : List T} {o : T} : Reaches kind d ts → kind o = .opens → Balanced kind us →
      Reaches kind (d + 1) (ts ++ o :: us)

variable {ts : List T} {d : Nat}

theorem Balanced.append {us : List T} (first : Balanced kind ts) (second : Balanced kind us) :
    Balanced kind (ts ++ us) := by
  induction first with
  | nil => exact second
  | flat same _ ih => exact .flat same ih
  | @nest o c inner ts opens inside closes _ _ ih =>
    rw [List.cons_append, List.append_assoc, List.cons_append]
    exact .nest opens inside closes ih

theorem climb_append (d : Nat) (ts us : List T) :
    climb kind d (ts ++ us) = (climb kind d ts).bind fun e => climb kind e us := by
  induction ts generalizing d with
  | nil => rfl
  | cons t ts ih =>
    rw [List.cons_append, climb, climb]
    split
    · exact ih d
    · exact ih (d + 1)
    · split
      · rfl
      · exact ih (d - 1)

theorem Balanced.climb (balanced : Balanced kind ts) (d : Nat) :
    climb kind d ts = some d := by
  induction balanced generalizing d with
  | nil => rfl
  | flat same _ ih =>
    rw [Nesting.climb, same]
    exact ih d
  | nest opens _ closes _ inside rest =>
    rw [Nesting.climb, opens]
    dsimp only
    rw [climb_append, inside, Option.bind_some, Nesting.climb, closes]
    dsimp only
    rw [if_neg (Nat.succ_ne_zero d)]
    exact rest d

theorem climb_shift {e : Nat} (climbs : climb kind d ts = some e) (k : Nat) :
    climb kind (d + k) ts = some (e + k) := by
  induction ts generalizing d with
  | nil =>
    cases climbs
    rfl
  | cons t ts ih =>
    rw [climb] at climbs ⊢
    split at climbs
    · exact ih climbs
    · rw [Nat.add_right_comm]
      exact ih climbs
    · split at climbs
      · cases climbs
      · rename_i more
        rw [if_neg (by omega), show d + k - 1 = d - 1 + k by omega]
        exact ih climbs

theorem climb_left {e : Nat} {us : List T} (climbs : climb kind d (ts ++ us) = some e) :
    ∃ f, climb kind d ts = some f := by
  rw [climb_append] at climbs
  obtain ⟨f, first, -⟩ := Option.bind_eq_some_iff.mp climbs
  exact ⟨f, first⟩

theorem open_unique {e e' : Nat} {x y z w : List T} {o o' : T} (same : x ++ o :: z = y ++ o' :: w)
    (opens : kind o = .opens) (opens' : kind o' = .opens) (left : climb kind 0 x = some d)
    (right : climb kind 0 y = some d) (stays : climb kind 0 z = some e) (stays' : climb kind 0 w = some e') :
    x = y ∧ o = o' ∧ z = w := by
  have stuck : ∀ {x u v : List T} {o : T} {e : Nat}, kind o = .opens → climb kind 0 x = some d →
      climb kind 0 (u ++ v) = some e → climb kind 0 (x ++ o :: u) ≠ some d := by
    intro x u v o e opens first stays whole
    obtain ⟨f, inner⟩ := climb_left stays
    rw [climb_append, first, Option.bind_some, climb, opens] at whole
    have shifted := climb_shift inner (d + 1)
    rw [Nat.zero_add] at shifted
    dsimp only at whole
    rw [shifted] at whole
    cases whole
  rcases List.append_eq_append_iff.mp same with ⟨more, rfl, rest⟩ | ⟨more, rfl, rest⟩
  · cases more with
    | nil =>
      cases rest
      exact ⟨(List.append_nil _).symm, rfl, rfl⟩
    | cons b more =>
      cases rest
      exact absurd right (stuck opens left stays)
  · cases more with
    | nil =>
      cases rest
      exact ⟨List.append_nil _, rfl, rfl⟩
    | cons b more =>
      cases rest
      exact absurd left (stuck opens' right stays')

theorem reaches_of_climb (climbs : climb kind 0 ts = some d) :
    Reaches kind d ts := by
  induction ts using List.reverseRecOn generalizing d with
  | nil =>
    cases climbs
    exact .level .nil
  | append_singleton ts t ih =>
    rw [climb_append] at climbs
    obtain ⟨e, front, last⟩ := Option.bind_eq_some_iff.mp climbs
    have before := ih front
    rw [climb] at last
    split at last
    · rename_i same
      cases last
      cases before with
      | level balanced => exact .level (balanced.append (.flat same .nil))
      | deeper outer opens balanced =>
        rw [List.append_assoc, List.cons_append]
        exact .deeper outer opens (balanced.append (.flat same .nil))
    · rename_i opens
      cases last
      exact .deeper before opens .nil
    · rename_i closes
      split at last
      · cases last
      cases last
      cases before with
      | level _ => contradiction
      | @deeper d ts us o outer opens balanced =>
        have whole : Balanced kind (o :: (us ++ [t])) := .nest opens balanced closes .nil
        rw [List.append_assoc, List.cons_append]
        cases outer with
        | level first => exact .level (first.append whole)
        | deeper outer opens' first =>
          rw [List.append_assoc, List.cons_append]
          exact .deeper outer opens' (first.append whole)

theorem Reaches.climb (reaches : Reaches kind d ts) :
    climb kind 0 ts = some d := by
  induction reaches with
  | level balanced => exact balanced.climb 0
  | deeper _ opens balanced ih =>
    rw [climb_append, ih, Option.bind_some, Nesting.climb, opens]
    exact balanced.climb _

theorem balanced_iff_climb : Balanced kind ts ↔ climb kind 0 ts = some 0 := by
  constructor
  · exact fun balanced => balanced.climb 0
  · intro climbs
    cases reaches_of_climb climbs with
    | level balanced => exact balanced

end Machinen.Nesting
