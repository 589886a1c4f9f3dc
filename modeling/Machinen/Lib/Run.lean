import Mathlib

/-! Runs of a step function that may refuse an action.
Invariants, guarded runs and relations between two runs are proved once here
and used by name for every state machine of the development. -/
namespace Machinen.Run

universe u v w

variable {S : Type u} {A : Type v} {T : Type w}

/-- A refused action ends the run without a state. -/
def exec (step : S → A → Option S) : S → List A → Option S
  | s, [] => some s
  | s, a :: as => (step s a).bind fun t => exec step t as

theorem guarded {guard : Prop} [Decidable guard] {s t : S} (next : (if guard then some s else none) = some t) :
    guard ∧ s = t := by
  rw [Option.ite_none_right_eq_some] at next
  exact next.imp_right Option.some.inj

/-- Every action of the run meets its condition in the state it is taken in. -/
def Meets (step : S → A → Option S) (ok : S → A → Prop) : S → List A → Prop
  | _, [] => True
  | s, a :: as => ok s a ∧ match step s a with
    | some t => Meets step ok t as
    | none => True

instance decidableMeets (step : S → A → Option S) (ok : S → A → Prop)
    [∀ s a, Decidable (ok s a)] : (s : S) → (as : List A) → Decidable (Meets step ok s as)
  | _, [] => isTrue trivial
  | s, a :: as =>
    match next : step s a with
    | some t =>
      have := decidableMeets step ok t as
      decidable_of_iff (ok s a ∧ Meets step ok t as) (by simp only [Meets, next])
    | none => decidable_of_iff (ok s a) (by simp only [Meets, next, and_true])

theorem Meets.tail {step : S → A → Option S} {ok : S → A → Prop} {s t : S} {a : A} {as : List A}
    (met : Meets step ok s (a :: as)) (next : step s a = some t) : Meets step ok t as := by
  have rest := met.2
  rwa [next] at rest

theorem exec_cons {step : S → A → Option S} {s u : S} {a : A} {as : List A}
    (run : exec step s (a :: as) = some u) : ∃ t, step s a = some t ∧ exec step t as = some u := by
  simpa only [exec, Option.bind_eq_some_iff] using run

theorem exec_append (step : S → A → Option S) (s : S) (as bs : List A) :
    exec step s (as ++ bs) = (exec step s as).bind fun t => exec step t bs := by
  induction as generalizing s with
  | nil => rfl
  | cons a as ih =>
    simp only [List.cons_append, exec, Option.bind_assoc]
    congr 1
    funext t
    exact ih t

theorem exec_invariant {step : S → A → Option S} {inv : S → Prop}
    (keeps : ∀ s a t, inv s → step s a = some t → inv t)
    (as : List A) {s t : S} (start : inv s) (run : exec step s as = some t) : inv t := by
  induction as generalizing s with
  | nil => exact (Option.some.inj run) ▸ start
  | cons a as ih =>
    obtain ⟨m, first, rest⟩ := exec_cons run
    exact ih (keeps s a m start first) rest

theorem exec_guarded {step : S → A → Option S} {ok : S → A → Prop} {inv : S → Prop}
    (keeps : ∀ s a t, inv s → ok s a → step s a = some t → inv t) (as : List A) {s t : S}
    (start : inv s) (met : Meets step ok s as) (run : exec step s as = some t) : inv t := by
  induction as generalizing s with
  | nil => exact (Option.some.inj run) ▸ start
  | cons a as ih =>
    obtain ⟨m, first, rest⟩ := exec_cons run
    exact ih (keeps s a m start met.1 first) (met.tail first) rest

theorem exec_relation {stepS : S → A → Option S} {stepT : T → A → Option T} {rel : S → T → Prop}
    (keeps : ∀ s t a s', rel s t → stepS s a = some s' → ∃ t', stepT t a = some t' ∧ rel s' t')
    (as : List A) {s s' : S} {t : T} (start : rel s t) (run : exec stepS s as = some s') :
    ∃ t', exec stepT t as = some t' ∧ rel s' t' := by
  induction as generalizing s t with
  | nil => exact ⟨t, rfl, (Option.some.inj run) ▸ start⟩
  | cons a as ih =>
    obtain ⟨m, first, rest⟩ := exec_cons run
    obtain ⟨n, moved, related⟩ := keeps s t a m start first
    obtain ⟨t', done, final⟩ := ih related rest
    exact ⟨t', by simp only [exec, moved, Option.bind_some, done], final⟩

/-- A property of the final state that no step restores was there in every state of the
run, and every action met what the step lemma derives from it. -/
theorem exec_backwards {step : S → A → Option S} {ok : S → A → Prop} {inv : S → Prop}
    (back : ∀ s a t, step s a = some t → inv t → inv s ∧ ok s a) (as : List A) {s t : S}
    (run : exec step s as = some t) (final : inv t) : inv s ∧ Meets step ok s as := by
  induction as generalizing s with
  | nil => exact ⟨(Option.some.inj run) ▸ final, trivial⟩
  | cons a as ih =>
    obtain ⟨m, first, rest⟩ := exec_cons run
    obtain ⟨middle, met⟩ := ih rest
    obtain ⟨before, meets⟩ := back s a m first middle
    refine ⟨before, meets, ?_⟩
    rw [first]
    exact met

theorem exec_isSome_iff {step : S → A → Option S} {ok : S → A → Prop} {inv : S → Prop}
    (exact_ : ∀ s a, inv s → ((step s a).isSome ↔ ok s a))
    (keeps : ∀ s a t, inv s → step s a = some t → inv t)
    (as : List A) {s : S} (start : inv s) : (exec step s as).isSome ↔ Meets step ok s as := by
  induction as generalizing s with
  | nil => exact iff_of_true rfl trivial
  | cons a as ih =>
    unfold exec Meets
    rw [← exact_ s a start]
    cases next : step s a with
    | none => exact iff_of_false nofun fun both => nomatch both.1
    | some t => exact (ih (keeps s a t start next)).trans ⟨fun met => ⟨rfl, met⟩, And.right⟩

theorem Meets.of_forall {step : S → A → Option S} {ok : S → A → Prop} (all : ∀ s a, ok s a)
    (as : List A) (s : S) : Meets step ok s as := by
  induction as generalizing s with
  | nil => exact trivial
  | cons a as ih =>
    refine ⟨all s a, ?_⟩
    cases step s a with
    | none => trivial
    | some t => exact ih t

theorem Meets.take {step : S → A → Option S} {ok : S → A → Prop} {s : S} {as : List A}
    (met : Meets step ok s as) (n : Nat) : Meets step ok s (as.take n) := by
  induction as generalizing s n with
  | nil => rw [List.take_nil]; exact trivial
  | cons a as ih =>
    cases n with
    | zero => exact trivial
    | succ n =>
      refine ⟨met.1, ?_⟩
      cases next : step s a with
      | none => trivial
      | some t => exact ih (met.tail next) n

theorem Meets.weaken {step : S → A → Option S} {ok ok' : S → A → Prop}
    (weaker : ∀ s a, ok s a → ok' s a) (as : List A) {s : S} (met : Meets step ok s as) :
    Meets step ok' s as := by
  induction as generalizing s with
  | nil => exact trivial
  | cons a as ih =>
    refine ⟨weaker s a met.1, ?_⟩
    cases next : step s a with
    | none => trivial
    | some t => exact ih (met.tail next)

theorem Meets.iff_of_invariant {step : S → A → Option S} {ok ok' : S → A → Prop} {inv : S → Prop}
    (agree : ∀ s a, inv s → (ok s a ↔ ok' s a)) (keeps : ∀ s a t, inv s → step s a = some t → inv t)
    (as : List A) {s : S} (start : inv s) : Meets step ok s as ↔ Meets step ok' s as := by
  induction as generalizing s with
  | nil => exact .rfl
  | cons a as ih =>
    refine and_congr (agree s a start) ?_
    cases next : step s a with
    | none => exact .rfl
    | some t => exact ih (keeps s a t start next)

theorem Meets.append_iff {step : S → A → Option S} {ok : S → A → Prop} {s t : S} {as bs : List A}
    (run : exec step s as = some t) :
    Meets step ok s (as ++ bs) ↔ Meets step ok s as ∧ Meets step ok t bs := by
  induction as generalizing s with
  | nil =>
    cases run
    exact ⟨fun met => ⟨trivial, met⟩, And.right⟩
  | cons a as ih =>
    obtain ⟨m, first, rest⟩ := exec_cons run
    simp only [List.cons_append, Meets, first, ih rest, and_assoc]

end Machinen.Run
