import Machinen.Lib.Program

/-! Two programs that run in lockstep from related states, and the rules for what
relates their values and the states they end in. -/
namespace Machinen.Prog

universe u

variable {S E A A' B B' : Type u}

variable {m : Prog S E A} {n : Prog S E A'}

/-- From states related by `P` both programs end with a value in `Q`, or both leave with
one exit in `X`. -/
def Lockstep (P : S → S → Prop) (m : Prog S E A) (n : Prog S E A') (Q : A → A' → S → S → Prop)
    (X : E → S → S → Prop) : Prop :=
  ∀ s r, P s r → match m s, n r with
    | (.ok a, t), (.ok b, u) => Q a b t u
    | (.error e, t), (.error f, u) => e = f ∧ X e t u
    | _, _ => False

namespace Lockstep

variable {P P' : S → S → Prop} {Q : A → A' → S → S → Prop} {X : E → S → S → Prop}

theorem ret {a : A} {b : A'} (now : ∀ s r, P s r → Q a b s r) : Lockstep P (pure a) (pure b) Q X := now

theorem exit {e : E} (now : ∀ s r, P s r → X e s r) :
    Lockstep P (leave e : Prog S E A) (leave e : Prog S E A') Q X := fun s r before => ⟨rfl, now s r before⟩

theorem andThen {f : A → Prog S E B} {g : A' → Prog S E B'}
    {Q : B → B' → S → S → Prop} {M : A → A' → S → S → Prop} (first : Lockstep P m n M X)
    (rest : ∀ a b, Lockstep (M a b) (f a) (g b) Q X) : Lockstep P (m >>= f) (n >>= g) Q X := by
  intro s r before
  have middle := first s r before
  match ranM : m s, ranN : n r with
  | (.ok a, t), (.ok b, u) =>
    rw [ranM, ranN] at middle
    rw [bind_ok ranM, bind_ok ranN]
    exact rest a b t u middle
  | (.error e, t), (.error d, u) =>
    rw [ranM, ranN] at middle
    rw [bind_error ranM, bind_error ranN]
    exact middle
  | (.ok a, t), (.error d, u) =>
    rw [ranM, ranN] at middle
    exact middle.elim
  | (.error e, t), (.ok b, u) =>
    rw [ranM, ranN] at middle
    exact middle.elim

theorem learn {f : A → Prog S E B} {g : A' → Prog S E B'} {Q : B → B' → S → S → Prop}
    {F : A → A' → Prop} {M : S → S → Prop} (first : Lockstep P m n (fun a b s r => F a b ∧ M s r) X)
    (rest : ∀ a b, F a b → Lockstep M (f a) (g b) Q X) : Lockstep P (m >>= f) (n >>= g) Q X :=
  first.andThen fun a b s r before => rest a b before.1 s r before.2

theorem pre (runs : Lockstep P m n Q X) (stronger : ∀ s r, P' s r → P s r) :
    Lockstep P' m n Q X := fun s r before => runs s r (stronger s r before)

theorem post {Q' : A → A' → S → S → Prop} (runs : Lockstep P m n Q X)
    (weaker : ∀ a b s r, Q a b s r → Q' a b s r) : Lockstep P m n Q' X := by
  intro s r before
  have after := runs s r before
  match ranM : m s, ranN : n r with
  | (.ok a, t), (.ok b, u) =>
    rw [ranM, ranN] at after
    exact weaker a b t u after
  | (.error e, t), (.error d, u) =>
    rw [ranM, ranN] at after
    exact after
  | (.ok a, t), (.error d, u) =>
    rw [ranM, ranN] at after
    exact after.elim
  | (.error e, t), (.ok b, u) =>
    rw [ranM, ranN] at after
    exact after.elim

/-- What the first program does alone is a fact for the rest of both. -/
theorem knowing {n : Prog S E A} {f : A → Prog S E B} {g : A → Prog S E B'} {Q : B → B' → S → S → Prop}
    {F : A → Prop} {L M : S → Prop} {R : E → S → Prop} (alone : Triple L m (fun a s => F a ∧ M s) R)
    (both : Lockstep P m n (fun a b s r => a = b ∧ P s r) X)
    (rest : ∀ a, F a → Lockstep (fun s r => M s ∧ P s r) (f a) (g a) Q X) :
    Lockstep (fun s r => L s ∧ P s r) (m >>= f) (n >>= g) Q X := by
  rintro s r ⟨here, before⟩
  have after := alone s here
  have middle := both s r before
  match ranM : m s, ranN : n r with
  | (.ok a, t), (.ok b, u) =>
    rw [ranM] at after
    rw [ranM, ranN] at middle
    obtain ⟨rfl, related⟩ := middle
    rw [bind_ok ranM, bind_ok ranN]
    exact rest a after.1 t u ⟨after.2, related⟩
  | (.error e, t), (.error d, u) =>
    rw [ranM, ranN] at middle
    rw [bind_error ranM, bind_error ranN]
    exact middle
  | (.ok a, t), (.error d, u) =>
    rw [ranM, ranN] at middle
    exact middle.elim
  | (.error e, t), (.ok b, u) =>
    rw [ranM, ranN] at middle
    exact middle.elim

theorem get {Q : S → S → S → S → Prop} (now : ∀ s r, P s r → Q s r s r) :
    Lockstep P (read : Prog S E S) read Q X := now

theorem set {Q : PUnit → PUnit → S → S → Prop} (f g : S → S) (now : ∀ s r, P s r → Q ⟨⟩ ⟨⟩ (f s) (g r)) :
    Lockstep P (change f : Prog S E PUnit) (change g) Q X := now

theorem check {condition other : Prop} [Decidable condition] [Decidable other] {e : E}
    {Q : PUnit → PUnit → S → S → Prop} (same : condition ↔ other)
    (holds : condition → ∀ s r, P s r → Q ⟨⟩ ⟨⟩ s r) (fails : ¬ condition → ∀ s r, P s r → X e s r) :
    Lockstep P (ensure condition e) (ensure other e) Q X := by
  by_cases yes : condition
  · simp only [ensure, if_pos yes, if_pos (same.mp yes)]
    exact ret (holds yes)
  · simp only [ensure, if_neg yes, if_neg fun also => yes (same.mpr also)]
    exact exit (fails yes)

theorem found {value : Option A} {other : Option A'} {e : E} {V : A → A' → Prop}
    (same : Option.Rel V value other) (present : ∀ a b, V a b → ∀ s r, P s r → Q a b s r)
    (absent : ∀ s r, P s r → X e s r) : Lockstep P (need value e) (need other e) Q X := by
  cases same with
  | some alike => exact ret (present _ _ alike)
  | none => exact exit absent

theorem branch {condition : Prop} [Decidable condition] {k : Prog S E A} {l : Prog S E A'}
    (yes : condition → Lockstep P m n Q X) (no : ¬ condition → Lockstep P k l Q X) :
    Lockstep P (if condition then m else k) (if condition then n else l) Q X := by
  split
  · exact yes ‹_›
  · exact no ‹_›

theorem loop {I : S → S → Prop} {body : A → Prog S E PUnit}
    (each : ∀ a, Lockstep I (body a) (body a) (fun _ _ => I) X) (as : List A) :
    Lockstep I (forEach body as) (forEach body as) (fun _ _ => I) X := by
  induction as with
  | nil => exact ret fun _ _ inv => inv
  | cons a rest ih => exact (each a).andThen fun _ _ => ih

/-- How both programs end. -/
theorem ends (runs : Lockstep P m n Q X) {s r : S} (before : P s r) :
    (∃ a b t u, m s = (.ok a, t) ∧ n r = (.ok b, u) ∧ Q a b t u) ∨
      ∃ e t u, m s = (.error e, t) ∧ n r = (.error e, u) ∧ X e t u := by
  have after := runs s r before
  match ranM : m s, ranN : n r with
  | (.ok a, t), (.ok b, u) =>
    rw [ranM, ranN] at after
    exact .inl ⟨a, b, t, u, rfl, rfl, after⟩
  | (.error e, t), (.error d, u) =>
    rw [ranM, ranN] at after
    obtain ⟨rfl, left⟩ := after
    exact .inr ⟨e, t, u, rfl, rfl, left⟩
  | (.ok a, t), (.error d, u) =>
    rw [ranM, ranN] at after
    exact after.elim
  | (.error e, t), (.ok b, u) =>
    rw [ranM, ranN] at after
    exact after.elim

end Lockstep
end Machinen.Prog
